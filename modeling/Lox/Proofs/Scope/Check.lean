import Lox.Proofs.Scope.Opening
import Lox.Proofs.Scope.Visit
import Lox.Proofs.Tree.Site

/-!
# What the walk checks

The walk through the scopes of a program reports an error exactly if some rule on scopes is
broken.  Two things that it keeps in its open scopes carry the argument: which locals have been
used (`Walk.Reads`), and which local's initial value it is in (`Walk.Pending`).  Scopes are
counted from the outside here, since a scope keeps this number while others are opened and
closed inside of it.
-/

namespace Lox

/-! ## Rules on single sites -/

/-- A site obeys the rule that is about it. -/
def Site.IsSound : Site → Prop
  | ⟨place, .read name⟩ => place.initialises ≠ some name
  | ⟨place, .this⟩ => place.around.allowsThis
  | ⟨place, .super⟩ => place.around.allowsSuper
  | ⟨place, .returns hasValue⟩ => place.role ≠ .outside ∧ (hasValue → place.role ≠ .initializer)
  | ⟨_, .subclass name superclass⟩ => superclass ≠ name
  | ⟨_, .parameters names⟩ => (names.map Name.text).Nodup
  | ⟨place, .body locals uses⟩ =>
    (locals.map Local.text).Nodup ∧ ∀ slot declared, locals[slot]? = some declared →
      ∃ use ∈ uses, use.Means place.scopes.length slot ∧ use.name = declared.text

/-- The innermost scope has none of the locals yet, and they have different names. -/
def Scopes.Admits (scopes : Scopes) (locals : List Local) : Prop :=
  ∀ innermost ∈ scopes.head?, (locals.map Local.text).Nodup ∧
    ∀ declared ∈ locals, declared.text ∉ innermost.map Local.text

namespace Scopes

@[simp]
theorem admits_nil (scopes : Scopes) : scopes.Admits [] := by
  intro innermost member
  simp

theorem admits_append (scopes : Scopes) (first second : List Local) :
    scopes.Admits (first ++ second) ↔
      scopes.Admits first ∧ (scopes.declare first).Admits second := by
  cases scopes with
  | nil => simp [Admits, declare]
  | cons innermost outer =>
    simp only [Admits, declare, List.head?_cons, Option.mem_def, Option.some.injEq, forall_eq',
      List.map_append, List.nodup_append, List.mem_append, not_or]
    constructor
    · rintro ⟨⟨firstDistinct, secondDistinct, apart⟩, fresh⟩
      refine ⟨⟨firstDistinct, fun declared member => fresh declared (.inl member)⟩,
        secondDistinct, fun declared member => ⟨fresh declared (.inr member), ?_⟩⟩
      exact fun twice => apart _ twice _ (List.mem_map_of_mem member) rfl
    · rintro ⟨⟨firstDistinct, firstFresh⟩, secondDistinct, secondFresh⟩
      refine ⟨⟨firstDistinct, secondDistinct, ?_⟩, ?_⟩
      · rintro name inFirst other inSecond rfl
        rcases List.mem_map.mp inSecond with ⟨declared, member, rfl⟩
        exact (secondFresh declared member).2 inFirst
      · rintro declared (member | member)
        · exact firstFresh declared member
        · exact (secondFresh declared member).1

/-- A new scope admits locals with different names. -/
theorem admits_openScope (scopes : Scopes) (locals : List Local) :
    Scopes.Admits ([] :: scopes) locals ↔ (locals.map Local.text).Nodup := by
  simp [Admits]

end Scopes

/-- A use means a local exactly if its address is that of the local. -/
theorem Occurrence.means_iff (use : Occurrence) (level slot : Nat) :
    use.Means level slot ↔ ∃ depth, use.address? = some ⟨depth, slot⟩ ∧
      level + depth + 1 = use.scopes.length := by
  constructor
  · rintro ⟨legal, ⟨depth, slot⟩, refers, rfl, same⟩
    exact ⟨depth, (use.address?_eq_some_iff legal _).mpr refers, same⟩
  · rintro ⟨depth, found, same⟩
    have legal : use.isLegal := by
      by_contra illegal
      simp [address?, illegal] at found
    exact ⟨legal, _, (use.address?_eq_some_iff legal _).mp found, rfl, same⟩

/-! ## Scopes whose declarations change -/

namespace Scope

theorem names_modify (scope : Scope) (slot : Nat) {change : Declaration → Declaration}
    (keeps : ∀ declaration, (change declaration).name = declaration.name) :
    names (scope.modify slot change) = scope.names := by
  induction scope generalizing slot with
  | nil => rw [List.modify_nil]
  | cons first others induction =>
    cases slot with
    | zero =>
      rw [List.modify_zero_cons]
      exact congrArg (· :: names others) (keeps first)
    | succ slot =>
      rw [List.modify_succ_cons]
      exact congrArg (first.name :: ·) (induction slot)

theorem isPending_markRead (scope : Scope) (slot : Nat) (name : String) :
    (scope.markRead slot).isPending name = scope.isPending name := by
  have same : names (scope.markRead slot) = scope.names :=
    names_modify scope slot fun _ => rfl
  rw [isPending, isPending, same]
  split
  · next latest _ =>
    rw [markRead, List.getElem?_modify]
    cases scope[latest]? with
    | none => rfl
    | some declaration =>
      rw [Option.map_eq_map, Option.map_some, Option.any_some, Option.any_some]
      split <;> rfl
  · rfl

/-- Of a name, only the declaration made last may be incomplete. -/
theorem isPending_append (scope : Scope) (declaration : Declaration) (name : String) :
    isPending name (scope ++ [declaration]) =
      if declaration.name = name then !declaration.defined else scope.isPending name := by
  have names_eq : names (scope ++ [declaration]) = scope.names ++ [declaration.name] := by
    rw [names, List.map_append]
    rfl
  rw [isPending, isPending, names_eq, latest?_append]
  by_cases same : declaration.name = name
  · have here : scope.names.length = scope.length := List.length_map _
    rw [if_pos same, if_pos same, here]
    simp
  · rw [if_neg same, if_neg same]
    cases found : latest? name scope.names with
    | none => rfl
    | some slot =>
      have inside := lt_length_of_latest? found
      rw [names, List.length_map] at inside
      simp only [List.getElem?_append_left inside]

theorem isPending_define (scope : Scope) (defined name : String) :
    (scope.define defined).isPending name =
      if defined = name then false else scope.isPending name := by
  rw [define]
  cases found : latest? defined scope.names with
  | none =>
    by_cases same : defined = name
    · rw [if_pos same, ← same, isPending, found]
    · rw [if_neg same]
  | some slot =>
    have names_eq : names (scope.modify slot fun declaration =>
        { declaration with defined := true }) = scope.names :=
      names_modify scope slot fun _ => rfl
    simp only [isPending, names_eq]
    by_cases same : defined = name
    · rw [if_pos same, ← same, found]
      simp only [List.getElem?_modify_eq]
      cases scope[slot]? <;> rfl
    · rw [if_neg same]
      cases foundOther : latest? name scope.names with
      | none => rfl
      | some other =>
        have apart : slot ≠ other := by
          rintro rfl
          have here := ((latest?_eq_some_iff _ _ _).mp found).1
          have there := ((latest?_eq_some_iff _ _ _).mp foundOther).1
          exact same (Option.some.inj (here.symm.trans there))
        simp only [List.getElem?_modify_ne _ _ apart]

/-- Completing a declaration uses no local. -/
theorem exists_read_define (scope : Scope) (defined : String) (slot : Nat) (name : String) :
    (∃ declaration, (scope.define defined)[slot]? = some declaration ∧ declaration.name = name ∧
        declaration.read) ↔
      ∃ declaration, scope[slot]? = some declaration ∧ declaration.name = name ∧
        declaration.read := by
  rw [define]
  split
  · next latest _ =>
    rw [List.getElem?_modify]
    cases scope[slot]? with
    | none => rfl
    | some declaration =>
      rw [Option.map_eq_map, Option.map_some]
      split <;> simp
  · rfl

/-- If all declarations of a scope have different names, all are reported that are not used. -/
theorem unread_eq_nil_iff {scope : Scope} (distinct : scope.names.Nodup) :
    scope.unread = [] ↔ ∀ declaration ∈ scope, declaration.read := by
  induction scope with
  | nil => simp [unread]
  | cons first others induction =>
    rw [names, List.map_cons, List.nodup_cons] at distinct
    have last : others.any (·.name == first.name) = false := by
      rw [List.any_eq_false]
      intro other member same
      exact distinct.1 (List.mem_map.mpr ⟨other, member, by simpa using same⟩)
    rw [unread, last, Bool.or_false, List.forall_mem_cons, ← induction distinct.2]
    cases first.read <;> simp

theorem unread_eq_nil_of_read {scope : Scope} (used : ∀ declaration ∈ scope, declaration.read) :
    scope.unread = [] := by
  induction scope with
  | nil => rfl
  | cons first others induction =>
    rw [List.forall_mem_cons] at used
    rw [unread, used.1, Bool.true_or, if_pos rfl]
    exact induction used.2

end Scope

/-! ## What is kept in the open scopes -/

namespace Walk

/-- The open scope that has so many scopes around it. -/
def scope? (walk : Walk) (level : Nat) : Option Scope :=
  walk.scopes.reverse[level]?

/-- The latest declaration of a name in a scope is not complete. -/
def Pending (walk : Walk) (level : Nat) (name : String) : Prop :=
  ∃ scope, walk.scope? level = some scope ∧ scope.isPending name

/-- The local of a name in a slot of a scope has been used. -/
def Reads (walk : Walk) (level slot : Nat) (name : String) : Prop :=
  ∃ scope declaration, walk.scope? level = some scope ∧ scope[slot]? = some declaration ∧
    declaration.name = name ∧ declaration.read

variable {walk before middle after opened : Walk} {scopes : Scopes} {level : Nat}
  {locals first second : List Local}

theorem scope?_outer (scope : Scope) (outer : List Scope) (errors : Array BindingError)
    (bindings : Array Binding) (inside : level < outer.length) :
    scope? ⟨scope :: outer, errors, bindings⟩ level = outer.reverse[level]? := by
  rw [scope?, List.reverse_cons, List.getElem?_append_left]
  rw [List.length_reverse]
  exact inside

theorem scope?_innermost (scope : Scope) (outer : List Scope) (errors : Array BindingError)
    (bindings : Array Binding) :
    scope? ⟨scope :: outer, errors, bindings⟩ outer.length = some scope := by
  rw [scope?, List.reverse_cons, ← List.length_reverse, List.getElem?_concat_length]

theorem Opens.length_eq (opens : walk.Opens scopes) : walk.scopes.length = scopes.length :=
  List.Forall₂.length_eq opens

theorem exists_scope? (inside : level < walk.scopes.length) :
    ∃ scope, walk.scope? level = some scope := by
  apply Option.ne_none_iff_exists'.mp
  rw [scope?, Ne, List.getElem?_eq_none_iff, List.length_reverse]
  omega

/-- Only the scope of the local that is used changes. -/
theorem scope?_modify (depth slot : Nat) (errors : Array BindingError) (bindings : Array Binding)
    (inside : level < walk.scopes.length) :
    scope? ⟨walk.scopes.modify depth (·.markRead slot), errors, bindings⟩ level =
      (walk.scope? level).map fun scope =>
        if level + depth + 1 = walk.scopes.length then scope.markRead slot else scope := by
  rw [scope?, scope?, List.getElem?_reverse, List.getElem?_reverse inside, List.length_modify,
    List.getElem?_modify]
  · have same : depth = walk.scopes.length - 1 - level ↔
        level + depth + 1 = walk.scopes.length := by omega
    simp only [same]
    rfl
  · rw [List.length_modify]
    exact inside

/-- A name leads to a declaration of this name. -/
theorem exists_declaration_of_locate? {name : String} {depth slot : Nat} {scope : Scope}
    (found : locate? name (walk.scopes.map Scope.names) = some ⟨depth, slot⟩)
    (same : level + depth + 1 = walk.scopes.length) (here : walk.scope? level = some scope) :
    ∃ declaration, scope[slot]? = some declaration ∧ declaration.name = name := by
  rcases (locate?_eq_some_iff _ _ _).mp found with ⟨⟨names, there, latest⟩, -⟩
  have place : walk.scopes.length - 1 - level = depth := by omega
  rw [scope?, List.getElem?_reverse (by omega), place] at here
  rw [List.getElem?_map, here, Option.map_some, Option.some.injEq] at there
  subst there
  have named := ((latest?_eq_some_iff _ _ _).mp latest).1
  rw [Scope.names, List.getElem?_map, Option.map_eq_some_iff] at named
  exact named

/-! ## Passing a part of a program -/

/--
Between two states the walk has passed a part of a program with these uses and sites, which
declares some locals in the innermost scope.
-/
structure Checks (before after : Walk) (scopes : Scopes) (locals : List Local)
    (uses : List Occurrence) (sites : List Site) : Prop where
  opens : after.Opens (scopes.declare locals)
  errors : after.errors = #[] ↔
    before.errors = #[] ∧ scopes.Admits locals ∧ ∀ site ∈ sites, site.IsSound
  pending : ∀ level < scopes.length, ∀ name, after.Pending level name ↔ before.Pending level name
  reads : ∀ level < scopes.length, ∀ slot name, after.Reads level slot name ↔
    before.Reads level slot name ∨ ∃ use ∈ uses, use.Means level slot ∧ use.name = name

namespace Checks

variable {uses uses' : List Occurrence} {sites sites' : List Site}

/-- Some rules may be checked while nothing happens to the scopes. -/
theorem of_scopes_eq (opens : before.Opens scopes) (same : after.scopes = before.scopes)
    (errors : after.errors = #[] ↔ before.errors = #[] ∧ ∀ site ∈ sites, site.IsSound) :
    Checks before after scopes [] [] sites := by
  constructor
  · rw [Scopes.declare_nil, Opens, same]
    exact opens
  · simpa using errors
  · intro level inside name
    rw [Pending, Pending, scope?, scope?, same]
  · intro level inside slot name
    rw [Reads, Reads, scope?, scope?, same]
    simp

theorem refl (opens : walk.Opens scopes) : Checks walk walk scopes [] [] [] :=
  of_scopes_eq opens rfl (by simp)

theorem trans (checks : Checks before middle scopes first uses sites)
    (next : Checks middle after (scopes.declare first) second uses' sites') :
    Checks before after scopes (first ++ second) (uses ++ uses') (sites ++ sites') := by
  constructor
  · have opens := next.opens
    rw [Scopes.declare_declare] at opens
    exact opens
  · rw [next.errors, checks.errors, Scopes.admits_append, List.forall_mem_append]
    tauto
  · intro level inside name
    rw [next.pending level (by simpa using inside), checks.pending level inside]
  · intro level inside slot name
    rw [next.reads level (by simpa using inside), checks.reads level inside]
    simp only [List.mem_append, or_and_right, exists_or, or_assoc]

/-- An expression declares nothing. -/
theorem andThen (checks : Checks before middle scopes [] uses sites)
    (next : Checks middle after scopes locals uses' sites') :
    Checks before after scopes locals (uses ++ uses') (sites ++ sites') :=
  checks.trans (by rw [Scopes.declare_nil]; exact next)

end Checks

/-! ## Single steps -/

/-- The use of a name is one of the local that it means. -/
theorem reads_refer (opens : walk.Opens scopes) (id : Nat) (name : String)
    (inside : level < scopes.length) (slot : Nat) (name' : String) :
    (walk.refer id name).Reads level slot name' ↔ walk.Reads level slot name' ∨
      Occurrence.Means ⟨id, name, true, scopes⟩ level slot ∧ name = name' := by
  have length := opens.length_eq
  have names : walk.scopes.map Scope.names = scopes.names := opens.names_eq
  rw [Occurrence.means_iff]
  simp only [Occurrence.address?, if_true]
  rw [refer, ← names]
  cases found : locate? name (walk.scopes.map Scope.names) with
  | none => simp
  | some address =>
    rcases address with ⟨depth, slot'⟩
    have isOpen := inside
    rw [← length] at isOpen
    rcases exists_scope? isOpen with ⟨scope, here⟩
    simp only [Reads, scope?_modify depth slot' _ _ isOpen, here, Option.map_some,
      Option.some.injEq, exists_and_left, exists_eq_left', Address.mk.injEq, length]
    by_cases same : level + depth + 1 = scopes.length
    · rcases exists_declaration_of_locate? found (same.trans length.symm) here with
        ⟨declaration, member, rfl⟩
      rw [if_pos same, Scope.markRead, List.getElem?_modify]
      by_cases sameSlot : slot' = slot
      · subst sameSlot
        simp [member, same]
        tauto
      · simp [sameSlot]
    · simp [same]

theorem checks_refer (opens : walk.Opens scopes) (id : Nat) (name : String) :
    Checks walk (walk.refer id name) scopes [] [⟨id, name, true, scopes⟩] [] := by
  constructor
  · rw [Scopes.declare_nil]
    exact opens.refer id name
  · rw [errors_refer]
    simp
  · intro level inside name'
    rw [refer]
    split
    · rfl
    · next address _ =>
      rw [← opens.length_eq] at inside
      rw [Pending, Pending, scope?_modify address.depth address.slot _ _ inside]
      cases walk.scope? level with
      | none => simp
      | some scope =>
        simp only [Option.map_some, Option.some.injEq, exists_eq_left']
        split
        · rw [Scope.isPending_markRead]
        · rfl
  · intro level inside slot name'
    rw [reads_refer opens id name inside]
    simp

/-- The walk is at a place of a program. -/
structure IsAt (walk : Walk) (context : Context) (place : Place) : Prop where
  opens : walk.Opens place.scopes
  role : place.role = context.function
  around : place.around = context.surroundings
  /-- Only the variable is incomplete in whose initial value the place is. -/
  waits : ∀ level, level + 1 = place.scopes.length → ∀ name,
    walk.Pending level name ↔ place.initialises = some name
  isLocal : place.scopes = [] → place.initialises = none

section

variable {context : Context} {place : Place} {uses : List Occurrence} {sites : List Site}

theorem IsAt.next (isAt : before.IsAt context place)
    (checks : Checks before after place.scopes locals uses sites) :
    after.IsAt context (place.declare locals) := by
  constructor
  · exact checks.opens
  · exact isAt.role
  · exact isAt.around
  · intro level innermost name
    rw [Place.declare, Scopes.length_declare] at innermost
    rw [checks.pending level (by omega), isAt.waits level innermost]
    rfl
  · intro outside
    have same : place.scopes = [] := by
      rw [← List.isEmpty_iff, ← Scopes.isEmpty_declare place.scopes locals]
      exact List.isEmpty_iff.mpr outside
    exact isAt.isLocal same

/-- After an expression the walk is at the same place. -/
theorem IsAt.then_ (isAt : before.IsAt context place)
    (checks : Checks before after place.scopes [] uses sites) : after.IsAt context place := by
  have next := isAt.next checks
  rw [Place.declare, Scopes.declare_nil] at next
  exact next

/-- What is not complete in the innermost scope is what the walk is in the initial value of. -/
theorem isPending_innermost_iff (isAt : walk.IsAt context place) (name : String) :
    (match walk.scopes with
      | [] => false
      | scope :: _ => scope.isPending name) = true ↔ place.initialises = some name := by
  have opens := isAt.opens
  have waits := isAt.waits
  rcases walk with ⟨_ | ⟨scope, outer⟩, errors, bindings⟩
  · have outside : place.scopes = [] := List.forall₂_nil_left_iff.mp opens
    simp [isAt.isLocal outside]
  · have innermost : outer.length + 1 = place.scopes.length := opens.length_eq
    rw [← waits outer.length innermost, Pending, scope?_innermost]
    simp

theorem checks_read (isAt : walk.IsAt context place) (target : Reference) :
    Checks walk (walk.read target) place.scopes [] [target.occurrence place.scopes]
      [⟨place, .read target.name.text⟩] := by
  unfold read
  extract_lets pending reported
  have isPending : pending = true ↔ place.initialises = some target.name.text :=
    isPending_innermost_iff isAt target.name.text
  have reports : Checks walk reported place.scopes [] [] [⟨place, .read target.name.text⟩] := by
    simp only [reported]
    split
    · next own =>
      apply Checks.of_scopes_eq isAt.opens
      · rfl
      · simp [report, Site.IsSound, isPending.mp own]
    · next other =>
      apply Checks.of_scopes_eq isAt.opens
      · rfl
      · simpa [Site.IsSound] using fun _ => mt isPending.mpr other
  exact reports.andThen (checks_refer (isAt.then_ reports).opens target.id target.name.text)

end

/-! ## Declarations -/

/-- Only the innermost scope changes. -/
theorem scope?_modifyHead {change : Scope → Scope}
    (same : after.scopes = before.scopes.modifyHead change)
    (inside : level < before.scopes.length) :
    after.scope? level = (before.scope? level).map fun scope =>
      if level + 1 = before.scopes.length then change scope else scope := by
  rcases before with ⟨_ | ⟨scope, outer⟩, errors, bindings⟩
  · cases inside
  · rw [List.modifyHead_cons] at same
    rw [List.length_cons] at inside
    rw [scope?, same, List.reverse_cons, List.length_cons]
    rcases Nat.lt_succ_iff_lt_or_eq.mp inside with further | rfl
    · rw [scope?_outer _ _ _ _ further, List.getElem?_append_left (by simpa using further)]
      simp [Nat.ne_of_lt further]
    · rw [scope?_innermost, ← List.length_reverse, List.getElem?_concat_length]
      simp

theorem scopes_declare (name : Name) (defined read : Bool) (walk : Walk) :
    (walk.declare name defined read).scopes =
      walk.scopes.modifyHead (· ++ [⟨name.text, name.line, defined, read⟩]) := by
  rcases walk with ⟨_ | ⟨scope, outer⟩, errors, bindings⟩
  · rfl
  · simp only [declare]
    split <;> rfl

theorem scopes_define (name : Name) (walk : Walk) :
    (walk.define name).scopes = walk.scopes.modifyHead (·.define name.text) := by
  rcases walk with ⟨_ | ⟨scope, outer⟩, errors, bindings⟩ <;> rfl

/-- A declaration is an error if the innermost scope has its name. -/
theorem errors_declare (opens : walk.Opens scopes) (name : Name) (defined read : Bool)
    (declared : Local) (named : declared.text = name.text) :
    (walk.declare name defined read).errors = #[] ↔
      walk.errors = #[] ∧ scopes.Admits [declared] := by
  rcases walk with ⟨_ | ⟨scope, outer⟩, errors, bindings⟩
  · cases opens
    simp [declare, Scopes.Admits]
  · cases opens with
    | @cons _ locals _ _ innermost others =>
      have isDeclared : scope.any (·.name == name.text) ↔
          declared.text ∈ locals.map Local.text := by
        rw [named, ← innermost.names_eq, Scope.names]
        simp
      simp only [declare]
      split
      · next twice =>
        have present := List.mem_map.mp (isDeclared.mp twice)
        simpa [report, Scopes.Admits] using fun _ => present
      · next once =>
        simpa [Scopes.Admits] using fun _ => mt isDeclared.mpr once

theorem pending_declare (opens : walk.Opens scopes) (name : Name) (defined read : Bool)
    (inside : level < scopes.length) (other : String) :
    (walk.declare name defined read).Pending level other ↔
      if level + 1 = scopes.length ∧ name.text = other then defined = false
      else walk.Pending level other := by
  have length := opens.length_eq
  rw [← length] at inside
  rcases exists_scope? inside with ⟨scope, here⟩
  rw [Pending, Pending, scope?_modifyHead (scopes_declare name defined read walk) inside, here,
    length]
  by_cases innermost : level + 1 = scopes.length
  · by_cases same : name.text = other
    · simp [innermost, Scope.isPending_append, same]
    · simp [innermost, Scope.isPending_append, same]
  · simp [innermost]

theorem pending_define (opens : walk.Opens scopes) (name : Name)
    (inside : level < scopes.length) (other : String) :
    (walk.define name).Pending level other ↔
      ¬ (level + 1 = scopes.length ∧ name.text = other) ∧ walk.Pending level other := by
  have length := opens.length_eq
  rw [← length] at inside
  rcases exists_scope? inside with ⟨scope, here⟩
  rw [Pending, Pending, scope?_modifyHead (scopes_define name walk) inside, here, length]
  by_cases innermost : level + 1 = scopes.length
  · by_cases same : name.text = other
    · simp [innermost, Scope.isPending_define, same]
    · simp [innermost, Scope.isPending_define, same]
  · simp [innermost]

/-- A new local has not been used. -/
theorem reads_declare (opens : walk.Opens scopes) (name : Name) (defined : Bool)
    (inside : level < scopes.length) (slot : Nat) (other : String) :
    (walk.declare name defined false).Reads level slot other ↔ walk.Reads level slot other := by
  rw [← opens.length_eq] at inside
  rcases exists_scope? inside with ⟨scope, here⟩
  rw [Reads, Reads, scope?_modifyHead (scopes_declare name defined false walk) inside, here]
  by_cases innermost : level + 1 = walk.scopes.length
  · simp only [innermost, if_true, Option.map_some, Option.some.injEq, exists_and_left,
      exists_eq_left', List.getElem?_append]
    split
    · rfl
    · next behind =>
      rw [List.getElem?_eq_none (Nat.le_of_not_lt behind)]
      simp [List.getElem?_singleton]
  · simp [innermost]

theorem reads_define (opens : walk.Opens scopes) (name : Name)
    (inside : level < scopes.length) (slot : Nat) (other : String) :
    (walk.define name).Reads level slot other ↔ walk.Reads level slot other := by
  rw [← opens.length_eq] at inside
  rcases exists_scope? inside with ⟨scope, here⟩
  rw [Reads, Reads, scope?_modifyHead (scopes_define name walk) inside, here]
  by_cases innermost : level + 1 = walk.scopes.length
  · simp only [innermost, if_true, Option.map_some, Option.some.injEq, exists_and_left,
      exists_eq_left']
    exact Scope.exists_read_define scope name.text slot other
  · simp [innermost]

section

variable {context : Context} {place : Place} {uses : List Occurrence} {sites : List Site}

/-- A function or a class is declared with a complete declaration. -/
theorem checks_declare (isAt : walk.IsAt context place) (settled : place.initialises = none)
    (name : Name) :
    Checks walk (walk.declare name true false) place.scopes [.named name] [] [] := by
  constructor
  · exact isAt.opens.declare (.named name) true false rfl
  · simpa using errors_declare isAt.opens name true false (.named name) rfl
  · intro level inside other
    rw [pending_declare isAt.opens name true false inside]
    split
    · next here =>
      rw [isAt.waits level here.1, settled]
      simp
    · rfl
  · intro level inside slot other
    rw [reads_declare isAt.opens name true inside]
    simp

/-- A variable is complete behind its initial value. -/
theorem checks_variable (isAt : walk.IsAt context place) (settled : place.initialises = none)
    (name : Name)
    (checks : Checks (walk.declare name false false) after (place.scopes.declare [.named name])
      [] uses sites) :
    Checks walk (after.define name) place.scopes [.named name] uses sites := by
  have opens := checks.opens
  rw [Scopes.declare_nil] at opens
  constructor
  · exact opens.define name
  · have same : (after.define name).errors = after.errors := by
      rw [define]
      split <;> rfl
    rw [same, checks.errors, errors_declare isAt.opens name false false (.named name) rfl]
    simp [and_assoc]
  · intro level inside other
    have inside' : level < (place.scopes.declare [.named name]).length := by simpa using inside
    rw [pending_define opens name inside', checks.pending level inside',
      pending_declare isAt.opens name false false inside, Scopes.length_declare]
    split
    · next here =>
      rw [isAt.waits level here.1, settled]
      simp [here.1, here.2]
    · next elsewhere => simp [elsewhere]
  · intro level inside slot other
    have inside' : level < (place.scopes.declare [.named name]).length := by simpa using inside
    rw [reads_define opens name inside', checks.reads level inside',
      reads_declare isAt.opens name false inside]

/-- In the initial value of a local variable, only this variable is not complete. -/
theorem isAt_initialising (isAt : walk.IsAt context place) (settled : place.initialises = none)
    (name : Name) :
    (walk.declare name false false).IsAt context (place.initialising name) := by
  constructor
  · exact isAt.opens.declare (.named name) false false rfl
  · exact isAt.role
  · exact isAt.around
  · intro level innermost other
    have here : level + 1 = place.scopes.length := by
      simpa [Place.initialising, Place.declare] using innermost
    have isLocal : place.scopes.isEmpty = false := by
      rw [List.isEmpty_eq_false_iff]
      rintro outside
      rw [outside] at here
      cases here
    rw [pending_declare isAt.opens name false false (by omega), isAt.waits level here, settled]
    simp [Place.initialising, isLocal, here]
  · intro outside
    have same : (place.scopes.declare [.named name]).isEmpty := List.isEmpty_iff.mpr outside
    rw [Scopes.isEmpty_declare] at same
    simp [Place.initialising, same]

end

/-! ## Scopes that are closed -/

theorem scope?_closeScope (opens : walk.Opens (locals :: scopes)) (inside : level < scopes.length) :
    walk.closeScope.scope? level = walk.scope? level := by
  rcases walk with ⟨_ | ⟨scope, outer⟩, errors, bindings⟩
  · cases opens
  · cases opens with
    | cons innermost others =>
      have further : level < outer.length := by
        rw [others.length_eq]
        exact inside
      rw [scope?_outer _ _ _ _ further, closeScope, scope?,
        (foldl_report scope.unread ⟨outer, errors, bindings⟩).1]

theorem foldl_report_errors (declarations : List Declaration) (walk : Walk) :
    (declarations.foldl (fun walk declaration =>
      walk.report declaration.line (.neverUsed declaration.name)) walk).errors = #[] ↔
      walk.errors = #[] ∧ declarations = [] := by
  induction declarations generalizing walk with
  | nil => simp
  | cons first others induction =>
    rw [List.foldl_cons, induction]
    simp [report]

/-- All locals of the innermost scope have been used. -/
theorem reads_innermost_iff {scope : Scope} {outer : List Scope} {errors : Array BindingError}
    {bindings : Array Binding} (isFor : scope.IsFor locals) :
    (∀ slot declared, locals[slot]? = some declared →
      Reads ⟨scope :: outer, errors, bindings⟩ outer.length slot declared.text) ↔
      ∀ declaration ∈ scope, declaration.read := by
  have named : ∀ slot : Nat,
      scope[slot]?.map Declaration.name = locals[slot]?.map Local.text := by
    intro slot
    rw [← List.getElem?_map, ← List.getElem?_map]
    exact congrArg (·[slot]?) isFor.names_eq
  simp only [Reads, scope?_innermost, Option.some.injEq, exists_and_left, exists_eq_left']
  constructor
  · intro used declaration member
    rcases List.mem_iff_getElem?.mp member with ⟨slot, here⟩
    have same := named slot
    rw [here, Option.map_some, eq_comm, Option.map_eq_some_iff] at same
    rcases same with ⟨declared, there, -⟩
    rcases used slot declared there with ⟨_, here', -, read⟩
    rw [here, Option.some.injEq] at here'
    rw [here']
    exact read
  · intro all slot declared there
    have same := named slot
    rw [there, Option.map_some, Option.map_eq_some_iff] at same
    rcases same with ⟨declaration, here, text⟩
    exact ⟨declaration, here, text, all declaration (List.mem_of_getElem? here)⟩

/-- Closing a scope whose locals have different names: all of them must have been used. -/
theorem errors_closeScope (opens : walk.Opens (locals :: scopes))
    (distinct : (locals.map Local.text).Nodup) :
    walk.closeScope.errors = #[] ↔ walk.errors = #[] ∧
      ∀ slot declared, locals[slot]? = some declared →
        walk.Reads scopes.length slot declared.text := by
  rcases walk with ⟨_ | ⟨scope, outer⟩, errors, bindings⟩
  · cases opens
  · cases opens with
    | cons innermost others =>
      rw [← innermost.names_eq] at distinct
      rw [closeScope, foldl_report_errors, Scope.unread_eq_nil_iff distinct,
        ← reads_innermost_iff innermost, ← others.length_eq]

/-- Nothing is wrong with closing a scope whose locals have all been used. -/
theorem errors_closeScope_of_reads (opens : walk.Opens (locals :: scopes))
    (used : ∀ slot declared, locals[slot]? = some declared →
      walk.Reads scopes.length slot declared.text) :
    walk.closeScope.errors = #[] ↔ walk.errors = #[] := by
  rcases walk with ⟨_ | ⟨scope, outer⟩, errors, bindings⟩
  · cases opens
  · cases opens with
    | cons innermost others =>
      rw [← others.length_eq] at used
      have all := (reads_innermost_iff innermost).mp used
      rw [closeScope, foldl_report_errors, Scope.unread_eq_nil_of_read all]
      simp

theorem scope?_openScope (opens : walk.Opens scopes) (inside : level < scopes.length) :
    walk.openScope.scope? level = walk.scope? level := by
  rw [← opens.length_eq] at inside
  exact scope?_outer [] walk.scopes walk.errors walk.bindings inside

/-- A new scope has no locals. -/
theorem not_reads_openScope (opens : walk.Opens scopes) (slot : Nat) (name : String) :
    ¬ walk.openScope.Reads scopes.length slot name := by
  rw [Reads, ← opens.length_eq]
  have innermost := scope?_innermost [] walk.scopes walk.errors walk.bindings
  rintro ⟨scope, declaration, here, there, -⟩
  cases here.symm.trans innermost
  cases there

/-- A block or the body of a function has been passed. -/
theorem checks_closeScope (place : Place) {locals : List Local} {uses : List Occurrence}
    {sites : List Site} (opens : walk.Opens place.scopes)
    (checks : Checks walk.openScope after ([] :: place.scopes) locals uses sites) :
    Checks walk after.closeScope place.scopes [] uses (⟨place, .body locals uses⟩ :: sites) := by
  have opened : after.Opens (locals :: place.scopes) := checks.opens
  have length : (([] : List Local) :: place.scopes).length = place.scopes.length + 1 := rfl
  constructor
  · rw [Scopes.declare_nil]
    exact opened.closeScope
  · have used : (∀ slot declared, locals[slot]? = some declared →
          after.Reads place.scopes.length slot declared.text) ↔
        ∀ slot declared, locals[slot]? = some declared →
          ∃ use ∈ uses, use.Means place.scopes.length slot ∧ use.name = declared.text := by
      simp only [checks.reads place.scopes.length (by omega),
        not_reads_openScope opens, false_or]
    have errors := checks.errors
    rw [Scopes.admits_openScope] at errors
    rw [List.forall_mem_cons]
    constructor
    · intro none
      have inner := (quiet_closeScope after).errors none
      rcases errors.mp inner with ⟨before, distinct, sound⟩
      have all := ((errors_closeScope opened distinct).mp none).2
      exact ⟨before, Scopes.admits_nil _, ⟨distinct, used.mp all⟩, sound⟩
    · rintro ⟨before, -, ⟨distinct, all⟩, sound⟩
      exact (errors_closeScope opened distinct).mpr
        ⟨errors.mpr ⟨before, distinct, sound⟩, used.mpr all⟩
  · intro level inside name
    rw [Pending, scope?_closeScope opened inside]
    apply (checks.pending level (by omega) name).trans
    rw [Pending, Pending, scope?_openScope opens inside]
  · intro level inside slot name
    rw [Reads, scope?_closeScope opened inside]
    apply (checks.reads level (by omega) slot name).trans
    rw [Reads, Reads, scope?_openScope opens inside]

/-- A scope is opened with locals that need not be used. -/
structure OpensUsed (before opened : Walk) (scopes : Scopes) (locals : List Local) : Prop where
  opens : opened.Opens (locals :: scopes)
  errors : opened.errors = #[] ↔ before.errors = #[] ∧ (locals.map Local.text).Nodup
  outer : ∀ level < scopes.length, opened.scope? level = before.scope? level
  used : ∀ slot declared, locals[slot]? = some declared →
    opened.Reads scopes.length slot declared.text

/-- What is in a scope with locals that need not be used has been passed. -/
theorem OpensUsed.closeScope {uses : List Occurrence} {sites sites' : List Site}
    (first : OpensUsed before opened scopes locals)
    (checks : Checks opened after (locals :: scopes) [] uses sites)
    (rules : (∀ site ∈ sites', site.IsSound) ↔
      (locals.map Local.text).Nodup ∧ ∀ site ∈ sites, site.IsSound) :
    Checks before after.closeScope scopes [] uses sites' := by
  have opens := checks.opens
  rw [Scopes.declare_nil] at opens
  have length : (locals :: scopes).length = scopes.length + 1 := rfl
  constructor
  · rw [Scopes.declare_nil]
    exact opens.closeScope
  · have used : ∀ slot declared, locals[slot]? = some declared →
        after.Reads scopes.length slot declared.text := fun slot declared here =>
      (checks.reads scopes.length (by omega) slot _).mpr (.inl (first.used slot declared here))
    rw [errors_closeScope_of_reads opens used, checks.errors, first.errors, rules]
    simp [and_assoc]
  · intro level inside name
    rw [Pending, scope?_closeScope opens inside]
    apply (checks.pending level (by omega) name).trans
    rw [Pending, Pending, first.outer level inside]
  · intro level inside slot name
    rw [Reads, scope?_closeScope opens inside]
    apply (checks.reads level (by omega) slot name).trans
    rw [Reads, Reads, first.outer level inside]

theorem OpensUsed.of_scopes_eq (opens : before.Opens scopes) (scope : Scope)
    (same : opened.scopes = scope :: before.scopes) (isFor : scope.IsFor locals)
    (used : ∀ declaration ∈ scope, declaration.read)
    (errors : opened.errors = #[] ↔ before.errors = #[] ∧ (locals.map Local.text).Nodup) :
    OpensUsed before opened scopes locals := by
  rcases opened with ⟨_, errors', bindings⟩
  cases same
  constructor
  · exact .cons isFor opens
  · exact errors
  · intro level inside
    rw [← opens.length_eq] at inside
    exact scope?_outer _ _ _ _ inside
  · rw [← opens.length_eq]
    exact (reads_innermost_iff isFor).mpr used

theorem opensUsed_openImplicit (opens : walk.Opens scopes) {name : String} (declared : Local)
    (line : Nat) (isFor : Declaration.IsFor ⟨name, line, true, true⟩ declared) :
    OpensUsed walk (walk.openImplicit name line) scopes [declared] := by
  apply OpensUsed.of_scopes_eq opens [⟨name, line, true, true⟩]
  · rfl
  · exact .cons isFor .nil
  · simp
  · simp [openImplicit, openScope, declare]

/-- The scope of the parameters of a function. -/
theorem opensUsed_openParameters (opens : walk.Opens scopes) (parameters : List Name) :
    OpensUsed walk (walk.openParameters parameters) scopes (parameters.map Local.named) := by
  have declares : ∀ (others : List Name) (walk' : Walk) (locals : List Local) (scope : Scope),
      walk'.scopes = scope :: walk.scopes → scope.IsFor locals →
      (∀ declaration ∈ scope, declaration.read) →
      ∃ scope', (others.foldl (fun walk parameter => walk.declare parameter true true)
          walk').scopes = scope' :: walk.scopes ∧
        scope'.IsFor (locals ++ others.map Local.named) ∧
        (∀ declaration ∈ scope', declaration.read) ∧
        ((others.foldl (fun walk parameter => walk.declare parameter true true)
          walk').errors = #[] ↔ walk'.errors = #[] ∧
            Scopes.Admits (locals :: scopes) (others.map Local.named)) := by
    intro others
    induction others with
    | nil =>
      intro walk' locals scope same isFor used
      exact ⟨scope, same, by simpa using isFor, used, by simp⟩
    | cons first others induction =>
      intro walk' locals scope same isFor used
      have opened : walk'.Opens (locals :: scopes) := by
        rw [Opens, same]
        exact .cons isFor opens
      have here := errors_declare opened first true true (.named first) rfl
      have isForFirst : Declaration.IsFor ⟨first.text, first.line, true, true⟩ (.named first) := rfl
      rcases induction (walk'.declare first true true) (locals ++ [.named first])
        (scope ++ [⟨first.text, first.line, true, true⟩])
        (by rw [scopes_declare, same]; rfl) (isFor.declare isForFirst)
        (by simpa [or_imp, forall_and] using used) with ⟨scope', same', isFor', used', errors⟩
      refine ⟨scope', same', by simpa using isFor', used', ?_⟩
      have both := Scopes.admits_append (locals :: scopes) [.named first] (others.map .named)
      rw [List.foldl_cons, errors, here, List.map_cons, and_assoc]
      exact and_congr_right fun _ => both.symm
  rcases declares parameters walk.openScope [] [] rfl .nil (by simp) with
    ⟨scope, same, isFor, used, errors⟩
  apply OpensUsed.of_scopes_eq opens scope same isFor used
  rw [Scopes.admits_openScope] at errors
  exact errors

/-- A function has been passed with its parameters and its body. -/
theorem checks_closeFunction {place : Place} {role : FunctionContext} {parameters : List Name}
    {locals : List Local} {uses : List Occurrence} {sites : List Site}
    (opens : walk.Opens place.scopes)
    (checks : Checks (walk.openParameters parameters).openScope after
      ([] :: parameters.map Local.named :: place.scopes) locals uses sites) :
    Checks walk after.closeScope.closeScope place.scopes [] uses
      (⟨place, .parameters parameters⟩ ::
        ⟨⟨role, place.around, none, parameters.map Local.named :: place.scopes⟩,
          .body locals uses⟩ :: sites) := by
  have first := opensUsed_openParameters opens parameters
  apply first.closeScope (checks_closeScope ⟨role, place.around, none, _⟩ first.opens checks)
  rw [List.forall_mem_cons]
  simp [Site.IsSound, Function.comp_def, Local.text]

end Walk

end Lox
