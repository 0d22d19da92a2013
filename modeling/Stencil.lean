import Stencil.Bytes.Basic
import Stencil.Bytes.TopLevel
import Stencil.Bytes.Quoted
import Stencil.Text.Utf8
import Stencil.Number.Word
import Stencil.Number.Decimal
import Stencil.Number.Binary64
import Stencil.Number.Shortest
import Stencil.Number.Numeral
import Stencil.Table
import Stencil.Json.Basic
import Stencil.Json.Library
import Stencil.Json.Printer
import Stencil.Json.Reader
import Stencil.Json.Strict
import Stencil.Json.View
import Stencil.Operator
import Stencil.Operand
import Stencil.Tree.Basic
import Stencil.Tree.Dump
import Stencil.Tree.Load
import Stencil.Tree.Outline
import Stencil.ErrorCode
import Stencil.Template.Source
import Stencil.Template.Fault
import Stencil.Template.Segment
import Stencil.Template.Statement
import Stencil.Template.Body
import Stencil.Template.Position
import Stencil.Template.Parse
import Stencil.Log
import Stencil.Render.Flow
import Stencil.Render.Failure
import Stencil.Inspector
import Stencil.Context
import Stencil.Registry
import Stencil.Builtins
import Stencil.Render.Tree
import Stencil.Session.Extension
import Stencil.Session
import Stencil.CommandLine
import Stencil.Main
import Stencil.Proofs.Template.Reading
import Stencil.Proofs.Template.Grammar
import Stencil.Proofs.Template.Content
import Stencil.Proofs.Template.Nesting
import Stencil.Proofs.Template.Statement
import Stencil.Proofs.Template.Form
import Stencil.Proofs.Tree.Normal
import Stencil.Proofs.Tree.Reload
import Stencil.Proofs.Render.Parts
import Stencil.Proofs.Render.Steps
import Stencil.Proofs.Render.Exit
import Stencil.Proofs.Render.Arena
import Stencil.Proofs.Render.Effect
import Stencil.Proofs.Render.Course
import Stencil.Proofs.Render.Running
import Stencil.Proofs.Render.Join
import Stencil.Proofs.Template.Origin
import Stencil.Proofs.Render.Discipline
import Stencil.Proofs.Render.Obedience
import Stencil.Proofs.Render.Tame
import Stencil.Proofs.Render.Refusal
import Stencil.Proofs.Context.Uses
import Stencil.Proofs.Context.Reuse
import Stencil.Proofs.Bytes.Literal
import Stencil.Proofs.Bytes.Passing
import Stencil.Proofs.Bytes.Cut
import Stencil.Proofs.Template.Markup
import Stencil.Proofs.Template.Literal
import Stencil.Proofs.Template.Written
import Stencil.Proofs.Template.Clause
import Stencil.Proofs.Template.Print
import Stencil.Proofs.Template.Separator
import Stencil.Proofs.Template.Loop
import Stencil.Proofs.Render.IfChain
import Stencil.Proofs.Render.Literal
import Stencil.Proofs.Render.Twin
import Stencil.Proofs.Render.Simulation
import Stencil.Proofs.Render.Unbound
import Stencil.Proofs.Render.Shape
import Stencil.Proofs.Session.Pool
import Stencil.Proofs.Number.Guard
import Stencil.Proofs.Number.Rounding
import Stencil.Proofs.Number.Written
import Stencil.Proofs.Number.Comparison
import Stencil.Proofs.Render.Counting
import Stencil.Proofs.Context.Path
import Stencil.Proofs.Context.Alias
import Stencil.Proofs.Text.Utf8
import Stencil.Proofs.Json.Library
import Stencil.Proofs.Json.Encoded
import Stencil.Proofs.Template.Encoding
import Stencil.Proofs.Render.Coded
import Stencil.Proofs.CommandLine.Output
import Stencil.Proofs.Session.Registration
import Stencil.Proofs.Template.Comparison
import Stencil.Proofs.Number.Nearest
import Stencil.Proofs.Number.Shortest
import Stencil.Proofs.Json.ShortestText
import Stencil.Proofs.Json.Strict
import Stencil.Proofs.Json.Compare
import Stencil.Proofs.Render.LiteralValue
import Stencil.Proofs.Render.Stepping
import Stencil.Proofs.Template.Standing
import Stencil.Proofs.Render.Ending
import Stencil.Proofs.Context.Bound
import Stencil.Proofs.Template.Preparation
import Stencil.Proofs.Template.Indentation
import Stencil.Proofs.Template.Comments
import Stencil.Proofs.Render.Partial
import Stencil.Proofs.Context.Atomic
import Stencil.Proofs.Context.Joined
import Stencil.Proofs.Template.Location
import Stencil.Proofs.Json.Coherence
import Stencil.Proofs.Number.Spelling
import Stencil.Proofs.Json.Numeric
import Stencil.Proofs.Number.Truncation
import Stencil.Proofs.Template.Setting
import Stencil.Proofs.Json.Integer
import Stencil.Proofs.Render.Escaped
import Stencil.Proofs.Text.Url
import Stencil.Proofs.Template.Operand
