import Mathlib
import Lox.Proofs.History.Knowledge
import Lox.Proofs.Session.Current

/-!
# Properties in sessions

What has been done in a session explains all accesses of properties: those of every program that
is executed in it, and those that any later program makes.

The main statement is `properties_resolve`.
-/

namespace Lox

namespace Session

/-! ## What is done in a session -/

/-- What is done when a program is executed. -/
def deeds (fuel : Nat) (program : List Stmt) (session : Session) : History :=
  (Recorded.interpret session.addresses fuel none program).deeds session.machine

/-- What is done when a source text is run, which is nothing if something is wrong with it. -/
def runDeeds (fuel : Nat) (source : String) (session : Session) : History :=
  let reading := Reading.ofSource session.nextId source
  let session := { session with nextId := reading.nextId }
  if reading.errors ≠ [] then
    []
  else
    let resolution := resolve reading.statements
    let session := session.record resolution.bindings
    if resolution.errors ≠ [] then [] else session.deeds fuel reading.statements

/-- What is done when a source text is run whatever is wrong with it. -/
def runAnywayDeeds (fuel : Nat) (resolving : Bool) (bindings : List Binding) (source : String)
    (session : Session) : History :=
  let reading := Reading.ofSource session.nextId source
  let resolution := if resolving then resolve reading.statements else ⟨[], []⟩
  let session := { session with nextId := reading.nextId }
  let session := (session.record resolution.bindings).record bindings
  session.deeds fuel reading.statements

/-- The sessions that there are, and what was done in them. -/
inductive Past : History → Session → Prop where
  | start (clock : Float) : Past [] (.start clock)
  | setClock (clock : Float) {history session} (before : Past history session) :
      Past history (session.setClock clock)
  | run {history : History} {session after : Session} {report} (fuel : Nat) (source : String)
      (before : Past history session) (ran : session.run fuel source = some (report, after)) :
      Past (history ++ session.runDeeds fuel source) after
  | runAnyway {history : History} {session after : Session} {diagnostics report} (fuel : Nat)
      (resolving : Bool) (bindings : List Binding) (source : String)
      (before : Past history session)
      (ran : session.runAnyway fuel resolving bindings source =
        some (diagnostics, report, after)) :
      Past (history ++ session.runAnywayDeeds fuel resolving bindings source) after

theorem Past.reached {history : History} {session : Session} (past : Past history session) :
    session.Reached := by
  induction past with
  | start clock => exact .start clock
  | setClock clock _ reached => exact .setClock clock reached
  | run fuel source _ ran reached => exact .run fuel source reached ran
  | runAnyway fuel resolving bindings source _ ran reached =>
    exact .runAnyway fuel resolving bindings source reached ran

/-- Every session has a past. -/
theorem Reached.exists_past {session : Session} (reached : session.Reached) :
    ∃ history, Past history session := by
  induction reached with
  | start clock => exact ⟨[], .start clock⟩
  | setClock clock _ exists_ =>
    rcases exists_ with ⟨history, past⟩
    exact ⟨history, past.setClock clock⟩
  | run fuel source _ ran exists_ =>
    rcases exists_ with ⟨history, past⟩
    exact ⟨_, past.run fuel source ran⟩
  | runAnyway fuel resolving bindings source _ ran exists_ =>
    rcases exists_ with ⟨history, past⟩
    exact ⟨_, past.runAnyway fuel resolving bindings source ran⟩

/-! ## What the past of a session says about it -/

variable {history : History} {session after : Session} {report : Report}

/-- However a program ends, what was done describes the machine that it leaves. -/
theorem covers_interpret (covers : Invariant.described.Covers history session.machine)
    (outside : session.IsOutside) (addresses : AddressTable) (fuel : Nat) (program : List Stmt) :
    Invariant.described.Covers
      (history ++ (Recorded.interpret addresses fuel none program).deeds session.machine)
      ((Step.interpret addresses fuel none program).after session.machine) := by
  have kept : (Recorded.interpret addresses fuel none program).Keeps .described (fun _ => True)
      history fun _ _ => True := Recorded.Keeps.interpret trivial addresses fuel history none program
  rw [← Recorded.step_interpret]
  exact (kept history session.machine (List.prefix_refl _) outside.hasRoot trivial covers).covers

theorem covers_execute (covers : Invariant.described.Covers history session.machine)
    (outside : session.IsOutside) {fuel : Nat} {program : List Stmt}
    (executed : session.execute fuel program = some (report, after)) :
    Invariant.described.Covers (history ++ session.deeds fuel program) after.machine := by
  rw [execute_eq_some executed]
  exact (covers_interpret covers outside session.addresses fuel program).congr rfl rfl rfl
    (Nat.le_refl _)

theorem covers_start (clock : Float) :
    Invariant.described.Covers [] (Session.start clock).machine := by
  have unmade : ∀ type, ¬ History.Makes [] type := by
    rintro type ⟨methods, classMethods, impossible⟩
    cases impossible
  constructor
  · constructor
    · exact .nil
    · intro target name
      rfl
    · intro target impossible
      cases impossible
    · exact fun type makes => absurd makes (unmade type)
  · constructor
    · intro frame index value here
      have empty : (Frames.slots (Frames.addRoot Frames.empty) frame : Array (Slot Value)) = #[] := by
        cases frame <;> rfl
      replace here : (Frames.slots (Frames.addRoot Frames.empty) frame)[index]? =
        some (Slot.initialised value) := here
      rw [empty] at here
      cases here
    · intro name value found
      simp only [start, Machine.start, Std.TreeMap.getElem?_insert] at found
      split at found
      · cases found
        trivial
      · simp at found
    · intro id table name value impossible
      simp [start, Machine.start] at impossible

/-- What was done in a session describes its machine. -/
theorem Past.covers (past : Past history session) :
    Invariant.described.Covers history session.machine := by
  induction past with
  | start clock => exact covers_start clock
  | setClock clock _ covers => exact covers.congr rfl rfl rfl (Nat.le_refl _)
  | @run history session after report fuel source before ran covers =>
    have outside := before.reached.isOutside
    simp only [Session.run] at ran
    rw [runDeeds]
    dsimp only
    split at ran
    · next rejected =>
      cases ran
      rw [if_pos rejected, List.append_nil]
      exact covers
    · next accepted =>
      rw [if_neg accepted]
      split at ran
      · next rejected =>
        cases ran
        rw [if_pos rejected, List.append_nil]
        exact covers
      · next accepted =>
        rw [if_neg accepted]
        refine covers_execute ?_ ?_ ran
        · exact covers
        · exact ⟨outside.current, outside.hasRoot⟩
  | @runAnyway history session after _ report fuel resolving bindings source before ran covers =>
    have outside := before.reached.isOutside
    simp only [Session.runAnyway] at ran
    split at ran
    · next result executed =>
      cases ran
      refine covers_execute ?_ ?_ executed
      · exact covers
      · exact ⟨outside.current, outside.hasRoot⟩
    · cases ran

end Session

/-! ## Properties -/

/-- The classes and instances that were made are apart from each other, and stay what they are. -/
structure History.IsClear (history : History) : Prop where
  /-- The superclasses of a class were made before it, so that no class extends itself. -/
  descends : ∀ type, history.Makes type →
    ((type.own :: type.inherited).map ClassBody.id).Pairwise (· > ·)
  superclass : ∀ type superclass, history.Makes type → type.superclass? = some superclass →
    history.Makes superclass
  /-- A class has the methods that were declared last when it was made. -/
  filled : ∀ type methods classMethods, .makes type methods classMethods ∈ history →
    ∀ kind : MethodKind, NamedFunction.Fill kind.initialises (kind.choose methods classMethods)
      (kind.table type.own)
  /-- What has the identity of a class is this class, with the same methods. -/
  eq_of_id : ∀ type other, history.Makes type → history.Makes other →
    type.own.id = other.own.id → type = other
  eq_of_instance_id : ∀ first second, .creates first ∈ history → .creates second ∈ history →
    first.id = second.id → first = second

theorem History.AreRight.isClear {history : History} (right : history.AreRight) :
    history.IsClear := by
  constructor
  · exact fun type => right.ids_descend
  · exact fun type superclass makes extends_ => (right.superclass makes extends_).1
  · exact fun type methods classMethods made => right.filled made
  · exact fun type other => right.eq_of_id
  · exact fun first second => right.eq_of_instance_id

/-- In a machine values are known, and their properties are what a history says. -/
structure Machine.IsExplained (history : History) (machine : Machine) : Prop where
  values : machine.Values history.Knows
  resolves : ∀ target, history.Knows target → ∀ name,
    history.Resolves name machine target (Step.property target name machine)

theorem Invariant.Covers.isExplained {history : History} {machine : Machine}
    (covers : Invariant.described.Covers history machine) : machine.IsExplained history :=
  ⟨covers.values, fun _ known name => covers.holds.resolves_property known name⟩

/-- What a program does that is executed on a machine after a history, however it ends. -/
structure History.Explains (history : History) (machine : Machine) (addresses : AddressTable)
    (fuel : Nat) (program : List Stmt) (now : History) : Prop where
  /-- What is done is recorded. -/
  recorded : (Recorded.interpret addresses fuel none program).step =
      Step.interpret addresses fuel none program ∧
    now = history ++ (Recorded.interpret addresses fuel none program).deeds machine
  clear : now.IsClear
  /-- Every access of a property ends as what was done before it says. -/
  accesses : ∀ (past : History) target name before ending future,
    now = past ++ .accesses target name before ending :: future →
      past.Knows target ∧ past.Resolves name before target ending
  after : ((Step.interpret addresses fuel none program).after machine).IsExplained now
  /-- Unless the program sets this field of this instance, the property is what it was. -/
  stays : ∀ target, history.Knows target → ∀ name : Name,
    (∀ object, target = .object object → ∀ value, ∀ other : Instance, other.id = object.id →
      .sets other name.text value ∉ (Recorded.interpret addresses fuel none program).deeds machine) →
        ∀ before ending, now.Resolves name before target ending ↔
          history.Resolves name before target ending

/-- Programs do what the past of a session explains. -/
theorem Session.Past.explains {history : History} {session : Session}
    (past : Session.Past history session) (addresses : AddressTable) (fuel : Nat)
    (program : List Stmt) :
    history.Explains session.machine addresses fuel program
      (history ++ (Recorded.interpret addresses fuel none program).deeds session.machine) := by
  have covers := past.covers
  have coversNow := Session.covers_interpret covers past.reached.isOutside addresses fuel program
  constructor
  · exact ⟨Recorded.step_interpret addresses fuel none program, rfl⟩
  · exact coversNow.holds.right.isClear
  · intro earlier target name before ending future same
    exact coversNow.holds.right earlier _ future same
  · exact coversNow.isExplained
  · intro target known name unset before ending
    apply coversNow.holds.right.resolves_append_iff covers.holds.right known
    intro object isObject deed member
    cases deed with
    | sets other field value =>
      apply if_neg
      rintro ⟨same, rfl⟩
      exact unset object isObject value other same member
    | _ => rfl

/--
In every session classes descend from classes that were made before them, and keep the methods
that were declared last when they were made.  A property of an instance is what this field of this
instance was last set to, unchanged; if it was never set, then the method of the nearest class
that declares one, bound to the instance; and if there is none, the access fails.  A property of a
class is the class method of the nearest class that declares one, and nothing else.  So it is at
every access that a program makes, and afterwards, however the program ends; and whatever it
declares or assigns, it changes no property of a class, and a property of an instance only by
setting this field of this instance.
-/
theorem properties_resolve :
    (∀ session : Session, session.Reached → ∃ history, Session.Past history session) ∧
    ∀ (history : History) (session : Session), Session.Past history session →
      history.IsClear ∧ session.machine.IsExplained history ∧
      ∀ (addresses : AddressTable) (fuel : Nat) (program : List Stmt), ∃ now,
        history.Explains session.machine addresses fuel program now := by
  refine ⟨fun session reached => reached.exists_past, ?_⟩
  intro history session past
  refine ⟨past.covers.holds.right.isClear, past.covers.isExplained, ?_⟩
  exact fun addresses fuel program => ⟨_, past.explains addresses fuel program⟩

/-- A text that declares a superclass anew, and sets a field with the name of a method. -/
def shadowsMethod : String :=
  "class A { m() {} } class B < A {} var b = B(); b.m; class A {} b.m = true; b.m;"

/-- The truth value that a property of an instance is looked up to be. -/
def Deed.foundBool? : Deed → Option (Name × Bool)
  | .accesses (.object _) name _ (.ok (.bool value) _) => some (name, value)
  | _ => none

/-- The field is what it was set to, which hides the method of the superclass. -/
theorem properties_resolve_shadowsMethod :
    ∃ (session : Session) (past : History) (target : Instance) (before after : Machine),
      Session.Past (past ++ [.accesses (.object target) ⟨"m", 1⟩ before
        (.ok (.bool true) after)]) session ∧
      past.lastSet? target "m" = some (.bool true) := by
  have runs : ((Session.start 0).run 40 shadowsMethod).map (fun ran => ran.1.outcome) =
      some (.success (some "true")) := by
    cbv
  have last : ((Session.start 0).runDeeds 40 shadowsMethod).getLast?.map Deed.foundBool? =
      some (some (⟨"m", 1⟩, true)) := by
    cbv
  rcases Option.map_eq_some_iff.mp runs with ⟨⟨report, session⟩, ran, -⟩
  rcases Option.map_eq_some_iff.mp last with ⟨deed, isLast, same⟩
  rcases List.getLast?_eq_some_iff.mp isLast with ⟨past, split_⟩
  have isPast := (Session.Past.start 0).run 40 shadowsMethod ran
  rw [List.nil_append, split_] at isPast
  rw [Deed.foundBool?.eq_def] at same
  split at same
  · next target name before value after =>
    cases same
    rcases properties_resolve.2 _ session isPast with ⟨-, -, explains⟩
    rcases explains ∅ 0 [] with ⟨now, explained⟩
    have resolves := explained.accesses past (.object target) ⟨"m", 1⟩ before _ []
      (explained.recorded.2.trans (List.append_nil _))
    cases resolves.2 with
    | field set => exact ⟨session, past, target, before, _, isPast, set⟩
  · cases same

end Lox
