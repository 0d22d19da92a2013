import Mathlib.Data.List.Nodup
import Stencil.Json.Strict
import Stencil.Proofs.Context.Uses

/-!
# The pool of contexts

Who has which context: a ledger of a session gives every context a number when it is made, and
carries the number along when the context goes to the pool and comes back. Without the numbers the
ledger is the session (`Ledger.session_run`), and with them a context is in one place only. What the
pool hands out is clean, held by nobody else and no longer in the pool; it works with the registry
of the pool as long as no context of another registry is given back (`Ledger.acquire_clean`), for
the pool takes those in and hands them out as they are (`Session.acquire_foreign`).
-/

set_option autoImplicit false

namespace Stencil

/-- The session after commands one after another. -/
def Session.runAll [JsonLibrary] (session : Session) (commands : List Command) : Session :=
  commands.foldl (fun session command => (session.run command).1) session

/-! ## Ledgers -/

/-- A session in which every context has the number of its making. -/
structure Ledger where
  registries : List Registry
  shared : Registry
  held : List (Option (Nat × Workspace)) := [some (0, Workspace.fresh (.made 0))]
  pooled : List (Nat × Workspace) := []
  /-- How many contexts have been made. -/
  made : Nat := 1

namespace Ledger

/-- The ledger of a new session. -/
def start [JsonLibrary] : Ledger where
  registries := [Registry.standard]
  shared := Registry.standard

/-- The session without the numbers. -/
def session (ledger : Ledger) : Session where
  registries := ledger.registries
  shared := ledger.shared
  workspaces := ledger.held.map (Option.map Prod.snd)
  pool := ledger.pooled.map Prod.snd

/-- The numbers of the contexts that hosts hold. -/
def heldNumbers (ledger : Ledger) : List Nat := ledger.held.filterMap (Option.map Prod.fst)

/-- The numbers of the contexts in the pool. -/
def pooledNumbers (ledger : Ledger) : List Nat := ledger.pooled.map Prod.fst

/-- A place whose context has been used, which leaves its number. -/
def renumber : Option (Nat × Workspace) → Option Workspace → Option (Nat × Workspace)
  | some (number, _), some entry => some (number, entry)
  | _, _ => none

/-- Carries out a command. A context gets its number when it is made, be it for a host or because
the pool is empty; other commands than those that move contexts use them where they are. -/
def run [JsonLibrary] (ledger : Ledger) : Command → Ledger
  | .makeContext registry =>
    { ledger with
      held := ledger.held ++ [some (ledger.made, Workspace.fresh registry)]
      made := ledger.made + 1 }
  | .acquire =>
    match ledger.pooled with
    | [] =>
      { ledger with
        held := ledger.held ++ [some (ledger.made, Workspace.fresh (.made 0))]
        made := ledger.made + 1 }
    | entry :: rest => { ledger with held := ledger.held ++ [some entry], pooled := rest }
  | .release index =>
    match ledger.held[index]? with
    | some (some (number, entry)) =>
      { ledger with
        held := ledger.held.set index none
        pooled := (number, { entry with context := entry.context.reset }) :: ledger.pooled }
    | _ => ledger
  | command =>
    let next := (ledger.session.run command).1
    { ledger with
      registries := next.registries
      shared := next.shared
      held := List.zipWith renumber ledger.held next.workspaces }

/-- The ledger after commands one after another. -/
def runAll [JsonLibrary] (ledger : Ledger) (commands : List Command) : Ledger :=
  commands.foldl run ledger

end Ledger

/-! ## Uses leave contexts where they are -/

/-- Whether a command makes a context, or takes one to the pool or from it. -/
def Command.moves : Command → Bool
  | makeContext _ | acquire | release _ => true
  | _ => false

namespace Session

/-- The same indices have contexts, and the pool is the same. -/
structure SamePlaces (before after : Session) : Prop where
  occupied : after.workspaces.map Option.isSome = before.workspaces.map Option.isSome
  pool : after.pool = before.pool

/-- A session has the same places as itself. -/
theorem SamePlaces.refl (session : Session) : session.SamePlaces session := ⟨rfl, rfl⟩

/-- Replacing a registry leaves contexts where they are. -/
theorem samePlaces_setRegistry (session : Session) (name : RegistryName) (registry : Registry) :
    session.SamePlaces (session.setRegistry name registry) := by
  cases name <;> exact ⟨rfl, rfl⟩

/-- Changing a registry leaves contexts where they are. -/
theorem samePlaces_change [JsonLibrary] (session : Session) (name : RegistryName) (answer : Answer)
    (f : Registry → Registry × List LogRecord) :
    session.SamePlaces (session.change name answer f).1 :=
  session.samePlaces_setRegistry name _

/-- Working with a context leaves contexts where they are. -/
theorem samePlaces_withContext [JsonLibrary] (session : Session) (index : Nat)
    (f : Registry → Context → Context × Answer) :
    session.SamePlaces (session.withContext index f).1 := by
  rw [withContext]
  cases hentry : session.workspace? index with
  | none => exact .refl _
  | some entry =>
    refine ⟨?_, rfl⟩
    have hget : session.workspaces[index]? = some (some entry) := Option.join_eq_some_iff.mp hentry
    have hoccupied : (session.workspaces.map Option.isSome)[index]? = some true := by
      simp [hget]
    simp only [setWorkspace, List.map_set, Option.isSome_some]
    obtain ⟨hlt, hvalue⟩ := List.getElem?_eq_some_iff.mp hoccupied
    rw [← hvalue, List.set_getElem_self]

/-- A command that moves no context leaves all of them where they are. -/
theorem samePlaces_run [JsonLibrary] (session : Session) {command : Command}
    (h : command.moves = false) :
    session.SamePlaces (session.run command).1 := by
  cases command with
  | makeContext | acquire | release => cases h
  | makeRegistry | known | read | log => exact ⟨rfl, rfl⟩
  | addTemplate registry name text keepFormatting =>
    rw [run, addTemplate]
    cases Tree.parse keepFormatting text with
    | error error => exact .refl _
    | ok tree =>
      exact session.samePlaces_change registry (.templateAdded tree.nodes.length) fun registry =>
        registry.addTemplate name tree
  | addModifier | addHelper | addInspector => exact session.samePlaces_change _ _ _
  | set | reset | render | renderText | enterLoop | leaveLoop =>
    exact session.samePlaces_withContext _ _

end Session

/-! ## A ledger is a session -/

namespace Ledger

/-- A command that moves no context changes registries, and uses contexts in their places. -/
theorem run_of_use [JsonLibrary] (ledger : Ledger) {command : Command} (h : command.moves = false) :
    ledger.run command =
      { ledger with
        registries := (ledger.session.run command).1.registries
        shared := (ledger.session.run command).1.shared
        held := List.zipWith renumber ledger.held (ledger.session.run command).1.workspaces } := by
  cases command <;> first | rfl | cases h

/-- Places that have been used are those of the uses without the numbers, and those of before
without the contexts. -/
theorem map_zipWith_renumber {held : List (Option (Nat × Workspace))}
    {used : List (Option Workspace)} (h : used.map Option.isSome = held.map Option.isSome) :
    (List.zipWith renumber held used).map (Option.map Prod.snd) = used ∧
      (List.zipWith renumber held used).map (Option.map Prod.fst) =
        held.map (Option.map Prod.fst) := by
  induction held generalizing used with
  | nil =>
    obtain rfl : used = [] := by simpa using h
    exact ⟨rfl, rfl⟩
  | cons first rest ih =>
    cases used with
    | nil => cases h
    | cons entry more =>
      rw [List.map_cons, List.map_cons, List.cons.injEq] at h
      obtain ⟨hcontexts, hnumbers⟩ := ih h.2
      rw [List.zipWith_cons_cons, List.map_cons, List.map_cons, List.map_cons, hcontexts, hnumbers]
      cases first with
      | none =>
        obtain rfl : entry = none := by simpa using h.1
        exact ⟨rfl, rfl⟩
      | some numbered =>
        obtain ⟨context, rfl⟩ := Option.isSome_iff_exists.mp h.1
        exact ⟨rfl, rfl⟩

/-- A place of the session holds a context when that of the ledger does. -/
theorem occupied_session (ledger : Ledger) :
    ledger.session.workspaces.map Option.isSome = ledger.held.map Option.isSome := by
  simp [session]

/-- What is at an index of the session, with its number. -/
theorem held_of_workspace? {ledger : Ledger} {index : Nat} {entry : Workspace}
    (h : ledger.session.workspace? index = some entry) :
    ∃ number, ledger.held[index]? = some (some (number, entry)) := by
  have hget : ledger.session.workspaces[index]? = some (some entry) :=
    Option.join_eq_some_iff.mp h
  rw [session, List.getElem?_map] at hget
  obtain ⟨place, hplace, hentry⟩ := Option.map_eq_some_iff.mp hget
  obtain ⟨⟨number, known⟩, rfl, rfl⟩ := Option.map_eq_some_iff.mp hentry
  exact ⟨number, hplace⟩

/-- Carrying the numbers along changes nothing about a command. -/
theorem session_run [JsonLibrary] (ledger : Ledger) (command : Command) :
    (ledger.run command).session = (ledger.session.run command).1 := by
  cases hmoves : command.moves with
  | false =>
    have hplaces := ledger.session.samePlaces_run hmoves
    have hused := (map_zipWith_renumber
      (hplaces.occupied.trans ledger.occupied_session)).1
    rw [run_of_use ledger hmoves, session]
    simp only [hused]
    rw [show ledger.pooled.map Prod.snd = ledger.session.pool from rfl, ← hplaces.pool]
  | true =>
    cases command with
    | makeContext registry => simp [run, Session.run, session]
    | acquire =>
      rw [run, Session.run, Session.takeFromPool]
      cases hpool : ledger.pooled with
      | nil => simp [session, hpool]
      | cons entry rest => simp [session, hpool]
    | release index =>
      rw [run, Session.run, Session.giveToPool]
      cases hentry : ledger.session.workspace? index with
      | none =>
        have hnone : ∀ numbered, ledger.held[index]? ≠ some (some numbered) := by
          intro numbered hget
          simp [Session.workspace?, session, hget] at hentry
        split
        · exact absurd (by assumption) (hnone _)
        · rfl
      | some entry =>
        obtain ⟨number, hget⟩ := held_of_workspace? hentry
        simp [hget, session, Session.setWorkspace, List.map_set]
    | _ => cases hmoves

/-- Commands do to the session of a ledger what they do to the session. -/
theorem session_runAll [JsonLibrary] (ledger : Ledger) (commands : List Command) :
    (ledger.runAll commands).session = ledger.session.runAll commands := by
  induction commands generalizing ledger with
  | nil => rfl
  | cons command rest ih =>
    rw [runAll, Session.runAll, List.foldl_cons, List.foldl_cons, ← session_run]
    exact ih (ledger.run command)

/-! ## A context is in one place -/

/-- A ledger in which no number stands twice, every number has been given, and what is in the pool
is clean. -/
structure Orderly (ledger : Ledger) : Prop where
  nodup : (ledger.heldNumbers ++ ledger.pooledNumbers).Nodup
  lt_made : ∀ number ∈ ledger.heldNumbers ++ ledger.pooledNumbers, number < ledger.made
  clean : ∀ entry ∈ ledger.pooled, entry.2.context.bindings = [] ∧ entry.2.context.arena.depth = 0

/-- A new ledger is orderly. -/
theorem orderly_start [JsonLibrary] : start.Orderly := by
  have hnumbers : start.heldNumbers ++ start.pooledNumbers = [0] := rfl
  have hmade : start.made = 1 := rfl
  refine ⟨?_, ?_, by simp [start]⟩
  · rw [hnumbers]
    decide
  · rw [hnumbers, hmade]
    decide

/-- Giving up a place takes its number out of those that are held. -/
theorem perm_heldNumbers_set {held : List (Option (Nat × Workspace))} {index number : Nat}
    {entry : Workspace} (h : held[index]? = some (some (number, entry))) :
    List.Perm (number :: (held.set index none).filterMap (Option.map Prod.fst))
      (held.filterMap (Option.map Prod.fst)) := by
  induction held generalizing index with
  | nil => simp at h
  | cons first rest ih =>
    cases index with
    | zero =>
      obtain rfl : first = some (number, entry) := by simpa using h
      simp
    | succ index =>
      have hrest := ih (by simpa using h)
      rw [List.set_cons_succ]
      cases first with
      | none => simpa using hrest
      | some numbered =>
        simpa using (List.Perm.swap numbered.1 number _).trans (hrest.cons numbered.1)

namespace Orderly

variable {ledger : Ledger}

/-- A context that is made gets a number of its own. -/
theorem make (h : ledger.Orderly) (entry : Workspace) :
    Orderly { ledger with held := ledger.held ++ [some (ledger.made, entry)],
                          made := ledger.made + 1 } := by
  have hnew : ledger.made ∉ ledger.heldNumbers ++ ledger.pooledNumbers :=
    fun hmem => Nat.lt_irrefl _ (h.lt_made _ hmem)
  have hperm : List.Perm
      ((ledger.held ++ [some (ledger.made, entry)]).filterMap (Option.map Prod.fst) ++
        ledger.pooledNumbers)
      (ledger.made :: (ledger.heldNumbers ++ ledger.pooledNumbers)) := by
    rw [List.filterMap_append, List.append_assoc]
    exact List.perm_middle
  refine ⟨?_, ?_, h.clean⟩
  · exact hperm.nodup_iff.mpr (List.nodup_cons.mpr ⟨hnew, h.nodup⟩)
  · intro number hmem
    obtain rfl | hknown := List.mem_cons.mp (hperm.mem_iff.mp hmem)
    · exact Nat.lt_succ_self _
    · exact Nat.lt_succ_of_lt (h.lt_made number hknown)

/-- Taking a context from the pool keeps a ledger orderly. -/
theorem take {entry : Nat × Workspace} {rest : List (Nat × Workspace)} (h : ledger.Orderly)
    (hpooled : ledger.pooled = entry :: rest) :
    Orderly { ledger with held := ledger.held ++ [some entry], pooled := rest } := by
  have hsame : (ledger.held ++ [some entry]).filterMap (Option.map Prod.fst) ++ rest.map Prod.fst =
      ledger.heldNumbers ++ ledger.pooledNumbers := by
    simp [heldNumbers, pooledNumbers, hpooled]
  refine ⟨?_, ?_, fun other hmem => h.clean other (hpooled ▸ .tail _ hmem)⟩
  · exact hsame ▸ h.nodup
  · exact hsame ▸ h.lt_made

/-- What is given back is reset, so the pool stays clean whatever has been done with it. -/
theorem give {index number : Nat} {entry : Workspace} (h : ledger.Orderly)
    (hheld : ledger.held[index]? = some (some (number, entry))) :
    Orderly
      { ledger with
        held := ledger.held.set index none
        pooled := (number, { entry with context := entry.context.reset }) :: ledger.pooled } := by
  have hperm : List.Perm
      ((ledger.held.set index none).filterMap (Option.map Prod.fst) ++
        number :: ledger.pooledNumbers)
      (ledger.heldNumbers ++ ledger.pooledNumbers) :=
    List.perm_middle.trans ((perm_heldNumbers_set hheld).append_right ledger.pooledNumbers)
  refine ⟨hperm.nodup_iff.mpr h.nodup,
    fun other hmem => h.lt_made other (hperm.mem_iff.mp hmem), ?_⟩
  exact List.forall_mem_cons.mpr ⟨⟨rfl, rfl⟩, h.clean⟩

/-- A command that moves no context keeps a ledger orderly. -/
theorem use [JsonLibrary] (h : ledger.Orderly) {command : Command}
    (hmoves : command.moves = false) :
    (ledger.run command).Orderly := by
  have hplaces := ledger.session.samePlaces_run hmoves
  have hnumbers := (map_zipWith_renumber (hplaces.occupied.trans ledger.occupied_session)).2
  have hsame : (ledger.run command).heldNumbers = ledger.heldNumbers := by
    rw [run_of_use ledger hmoves]
    have hheld (held : List (Option (Nat × Workspace))) :
        held.filterMap (Option.map Prod.fst) = (held.map (Option.map Prod.fst)).filterMap id := by
      rw [List.filterMap_map]
      rfl
    simp only [heldNumbers]
    rw [hheld, hnumbers, ← hheld]
  rw [run_of_use ledger hmoves] at hsame ⊢
  exact ⟨hsame ▸ h.nodup, hsame ▸ h.lt_made, h.clean⟩

/-- Every command keeps a ledger orderly. -/
theorem run [JsonLibrary] (h : ledger.Orderly) (command : Command) :
    (ledger.run command).Orderly := by
  cases hmoves : command.moves with
  | false => exact h.use hmoves
  | true =>
    cases command with
    | makeContext registry => exact h.make _
    | acquire =>
      rw [Ledger.run]
      cases hpooled : ledger.pooled with
      | nil =>
        have hmade := h.make (Workspace.fresh (.made 0))
        rwa [hpooled] at hmade
      | cons entry rest => exact h.take hpooled
    | release index =>
      rw [Ledger.run]
      split
      · exact h.give (by assumption)
      · exact h
    | _ => cases hmoves

/-- Every run of commands keeps a ledger orderly. -/
theorem runAll [JsonLibrary] (h : ledger.Orderly) (commands : List Command) :
    (ledger.runAll commands).Orderly := by
  induction commands generalizing ledger with
  | nil => exact h
  | cons command rest ih => exact ih (h.run command)

end Orderly

end Ledger

/-! ## Contexts of another registry -/

namespace Session

/-- Whether every context that the commands give back works with the registry of the pool. -/
def GivesHome [JsonLibrary] (session : Session) : List Command → Prop
  | [] => True
  | command :: rest =>
    (∀ index entry, command = .release index → session.workspace? index = some entry →
      entry.registry = .made 0) ∧ (session.run command).1.GivesHome rest

/-- Whether every context in the pool works with the registry of the pool. -/
def PoolsHome (session : Session) : Prop := ∀ entry ∈ session.pool, entry.registry = .made 0

variable {session : Session}

/-- A command keeps the pool at home unless it gives back a context of another registry. -/
theorem PoolsHome.run [JsonLibrary] (h : session.PoolsHome) {command : Command}
    (hgives : ∀ index entry, command = .release index → session.workspace? index = some entry →
      entry.registry = .made 0) : (session.run command).1.PoolsHome := by
  cases hmoves : command.moves with
  | false =>
    rw [PoolsHome, (session.samePlaces_run hmoves).pool]
    exact h
  | true =>
    cases command with
    | makeContext registry => exact h
    | acquire =>
      rw [Session.run, takeFromPool]
      cases hpool : session.pool with
      | nil => simp [PoolsHome]
      | cons entry rest => exact fun other hmem => h other (hpool ▸ .tail _ hmem)
    | release index =>
      rw [Session.run, giveToPool]
      cases hentry : session.workspace? index with
      | none => exact h
      | some entry => exact List.forall_mem_cons.mpr ⟨hgives index entry rfl hentry, h⟩
    | _ => cases hmoves

/-- Commands that give home what they give back keep the pool at home. -/
theorem PoolsHome.runAll [JsonLibrary] (h : session.PoolsHome) {commands : List Command}
    (hgives : session.GivesHome commands) : (session.runAll commands).PoolsHome := by
  induction commands generalizing session with
  | nil => exact h
  | cons command rest ih => exact ih (h.run hgives.1) hgives.2

end Session

/-! ## What the pool hands out -/

/-- The pool hands out what came back last, or a new context. -/
theorem Ledger.exists_of_acquire [JsonLibrary] (ledger : Ledger) :
    ∃ number entry, (ledger.run .acquire).held = ledger.held ++ [some (number, entry)] ∧
      ((number, entry) ∈ ledger.pooled ∨ entry = Workspace.fresh (.made 0)) := by
  rw [run]
  cases hpooled : ledger.pooled with
  | nil => exact ⟨_, _, rfl, .inr rfl⟩
  | cons entry rest => exact ⟨entry.1, entry.2, rfl, .inl (.head _)⟩

/-- The pool hands out only clean contexts. After any commands, the context that the next one takes
from the pool has no variables and is in no loop; it has a number that no other context in the hands
of a host has, nor one that is still in the pool; and it works with the registry of the pool, unless
a context of another registry has been given back. -/
theorem Ledger.acquire_clean [JsonLibrary] (commands : List Command) :
    let session := Session.runAll .start commands
    let ledger := Ledger.runAll .start commands
    ledger.session = session ∧ (ledger.run .acquire).session = (session.run .acquire).1 ∧
    ∃ number entry,
      (session.run .acquire).1.workspaces = session.workspaces ++ [some entry] ∧
      (ledger.run .acquire).held = ledger.held ++ [some (number, entry)] ∧
      entry.context.bindings = [] ∧ entry.context.arena.depth = 0 ∧
      number ∉ ledger.heldNumbers ∧ number ∉ (ledger.run .acquire).pooledNumbers ∧
      (Session.GivesHome .start commands → entry.registry = .made 0) := by
  intro session ledger
  have hsession : ledger.session = session := session_runAll .start commands
  have hrun : (ledger.run .acquire).session = (session.run .acquire).1 :=
    hsession ▸ ledger.session_run .acquire
  have horderly : ledger.Orderly := orderly_start.runAll commands
  obtain ⟨number, entry, hheld, horigin⟩ := ledger.exists_of_acquire
  have hworkspaces : (session.run .acquire).1.workspaces = session.workspaces ++ [some entry] := by
    rw [← hrun, ← hsession]
    simp [Ledger.session, hheld]
  refine ⟨hsession, hrun, number, entry, hworkspaces, hheld, ?_, ?_, ?_, ?_, ?_⟩
  · obtain hpooled | rfl := horigin
    · exact (horderly.clean _ hpooled).1
    · rfl
  · obtain hpooled | rfl := horigin
    · exact (horderly.clean _ hpooled).2
    · rfl
  · -- the number stands in the last place, and no number stands twice
    have hnodup := (horderly.run .acquire).nodup
    rw [heldNumbers, hheld, List.filterMap_append, List.append_assoc] at hnodup
    exact fun hmem => List.disjoint_of_nodup_append hnodup hmem (.head _)
  · have hnodup := (horderly.run .acquire).nodup
    rw [heldNumbers, hheld, List.filterMap_append] at hnodup
    exact List.disjoint_of_nodup_append hnodup (List.mem_append_right _ (.head _))
  · intro hgives
    obtain hpooled | rfl := horigin
    · have hhome : session.PoolsHome :=
        Session.PoolsHome.runAll (by simp [Session.PoolsHome, Session.start]) hgives
      exact hhome entry (hsession ▸ List.mem_map_of_mem hpooled)
    · rfl

open scoped JsonLibrary.Strict

/-- A context that is given back with a variable and inside of a loop is handed out clean. -/
theorem Ledger.acquire_used :
    let commands : List Command :=
      [.set 0 (ascii "x") .null [], .enterLoop 0, .render 0 (ascii "page"), .release 0]
    Session.GivesHome .start commands ∧
    ∃ number entry,
      (Ledger.run (Ledger.runAll .start commands) .acquire).held = [none, some (number, entry)] ∧
      entry.context.bindings = [] ∧ entry.context.arena.depth = 0 ∧ entry.registry = .made 0 := by
  intro commands
  have hgives : Session.GivesHome .start commands := by
    refine ⟨?_, ?_, ?_, ?_, trivial⟩
    · rintro index entry ⟨⟩
    · rintro index entry ⟨⟩
    · rintro index entry ⟨⟩
    · rintro index entry ⟨⟩ hentry
      obtain rfl := Option.some.inj hentry
      rfl
  obtain ⟨-, -, number, entry, -, hheld, hbindings, hdepth, -, -, hregistry⟩ :=
    acquire_clean commands
  exact ⟨hgives, number, entry, hheld, hbindings, hdepth, hregistry hgives⟩

/-- The pool takes a context of another registry and hands it out as it is. -/
theorem Session.acquire_foreign :
    let commands : List Command := [.makeRegistry, .makeContext (.made 1), .release 1]
    ∃ entry,
      ((Session.runAll .start commands).run .acquire).1.workspace? 2 = some entry ∧
      entry.registry = .made 1 ∧ entry.registry ≠ .made 0 :=
  ⟨_, rfl, rfl, by decide⟩

end Stencil
