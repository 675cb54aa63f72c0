import Lox.Proofs.Scope.Resolution
import Lox.Proofs.Scope.Rules
import Lox.Proofs.Spelling.Scope

/-!
# Spellings that obey the rules on scopes

A program without faults has none either as it is spelt consistently, and the places of its uses
are the same (`resolve_spell`).
-/

namespace Lox

/-! ## The scopes around uses -/

/-- A use stands in some scopes, the innermost of which has the first ones of some more locals. -/
def Occurrence.IsWithin (scopes : Scopes) (locals : List Local) (use : Occurrence) : Prop :=
  ∃ first, first <+: locals ∧ scopes.declare first <:+ use.scopes

namespace Occurrence.IsWithin

variable {scopes : Scopes} {use : Occurrence} {first second locals : List Local}

theorem of_suffix (suffix : scopes <:+ use.scopes) : use.IsWithin scopes locals :=
  ⟨[], List.nil_prefix, by rwa [Scopes.declare_nil]⟩

theorem left (within : use.IsWithin scopes first) : use.IsWithin scopes (first ++ second) := by
  rcases within with ⟨row, begins, suffix⟩
  exact ⟨row, begins.trans (List.prefix_append _ _), suffix⟩

theorem right (within : use.IsWithin (scopes.declare first) second) :
    use.IsWithin scopes (first ++ second) := by
  rcases within with ⟨row, begins, suffix⟩
  rw [Scopes.declare_declare] at suffix
  exact ⟨first ++ row, (List.prefix_append_right_inj first).mpr begins, suffix⟩

/-- The scopes around a scope are around all that is in it. -/
theorem suffix_of_cons (within : use.IsWithin (first :: scopes) locals) :
    scopes <:+ use.scopes := by
  rcases within with ⟨row, -, suffix⟩
  exact (List.suffix_cons _ _).trans suffix

end Occurrence.IsWithin

mutual

theorem Expr.suffix_of_occurrences (around : Surroundings) (scopes : Scopes) :
    ∀ expression : Expr, ∀ use ∈ expression.occurrences around scopes, scopes <:+ use.scopes
  | .literal _ => List.forall_mem_nil _
  | .read _ => List.forall_mem_singleton.mpr (List.suffix_refl _)
  | .this _ _ => List.forall_mem_singleton.mpr (List.suffix_refl _)
  | .super _ _ _ => List.forall_mem_singleton.mpr (List.suffix_refl _)
  | .group inner => inner.suffix_of_occurrences around scopes
  | .unary _ _ operand => operand.suffix_of_occurrences around scopes
  | .binary _ _ left right => List.forall_mem_append.mpr
    ⟨left.suffix_of_occurrences around scopes, right.suffix_of_occurrences around scopes⟩
  | .logical _ _ left right => List.forall_mem_append.mpr
    ⟨left.suffix_of_occurrences around scopes, right.suffix_of_occurrences around scopes⟩
  | .assign _ value => List.forall_mem_append.mpr
    ⟨value.suffix_of_occurrences around scopes,
      List.forall_mem_singleton.mpr (List.suffix_refl _)⟩
  | .call callee _ arguments => List.forall_mem_append.mpr
    ⟨callee.suffix_of_occurrences around scopes,
      Expr.suffix_of_occurrencesAll around scopes arguments⟩
  | .function definition => definition.suffix_of_occurrences around scopes
  | .get object _ => object.suffix_of_occurrences around scopes
  | .set object _ value => List.forall_mem_append.mpr
    ⟨object.suffix_of_occurrences around scopes, value.suffix_of_occurrences around scopes⟩

theorem Expr.suffix_of_occurrencesAll (around : Surroundings) (scopes : Scopes) :
    ∀ expressions : List Expr, ∀ use ∈ Expr.occurrencesAll around scopes expressions,
      scopes <:+ use.scopes
  | [] => List.forall_mem_nil _
  | first :: others => List.forall_mem_append.mpr
    ⟨first.suffix_of_occurrences around scopes, Expr.suffix_of_occurrencesAll around scopes others⟩

theorem Function.suffix_of_occurrences (around : Surroundings) (scopes : Scopes) :
    ∀ definition : Function, ∀ use ∈ definition.occurrences around scopes, scopes <:+ use.scopes
  | .mk _ body, use, member =>
    (List.suffix_cons _ _).trans
      (Stmt.isWithin_occurrencesAll around _ body use member).suffix_of_cons

theorem NamedFunction.suffix_of_occurrencesAll (around : Surroundings) (scopes : Scopes) :
    ∀ functions : List NamedFunction,
      ∀ use ∈ NamedFunction.occurrencesAll around scopes functions, scopes <:+ use.scopes
  | [] => List.forall_mem_nil _
  | .mk _ definition :: others => List.forall_mem_append.mpr
    ⟨definition.suffix_of_occurrences around scopes,
      NamedFunction.suffix_of_occurrencesAll around scopes others⟩

theorem Stmt.isWithin_occurrences (around : Surroundings) (scopes : Scopes) :
    ∀ statement : Stmt, ∀ use ∈ statement.occurrences around scopes,
      use.IsWithin scopes statement.locals
  | .varDecl _ none => List.forall_mem_nil _
  | .breakLoop _ => List.forall_mem_nil _
  | .returnValue _ none => List.forall_mem_nil _
  | .expression value => fun use member =>
    .of_suffix (value.suffix_of_occurrences around scopes use member)
  | .print value => fun use member =>
    .of_suffix (value.suffix_of_occurrences around scopes use member)
  | .returnValue _ (some value) => fun use member =>
    .of_suffix (value.suffix_of_occurrences around scopes use member)
  | .varDecl name (some initial) => fun use member =>
    ⟨[.named name], List.prefix_refl _, initial.suffix_of_occurrences around _ use member⟩
  | .block body => fun use member =>
    .of_suffix (Stmt.isWithin_occurrencesAll around _ body use member).suffix_of_cons
  | .ifElse condition whenTrue none => List.forall_mem_append.mpr
    ⟨fun use member => .of_suffix (condition.suffix_of_occurrences around scopes use member),
      whenTrue.isWithin_occurrences around scopes⟩
  | .ifElse condition whenTrue (some whenFalse) =>
    List.forall_mem_append.mpr ⟨List.forall_mem_append.mpr
      ⟨fun use member => .of_suffix (condition.suffix_of_occurrences around scopes use member),
        fun use member => (whenTrue.isWithin_occurrences around scopes use member).left⟩,
      fun use member => (whenFalse.isWithin_occurrences around _ use member).right⟩
  | .whileLoop condition body => List.forall_mem_append.mpr
    ⟨fun use member => .of_suffix (condition.suffix_of_occurrences around scopes use member),
      body.isWithin_occurrences around scopes⟩
  | .funDecl (.mk name definition) => fun use member =>
    ⟨[.named name], List.prefix_refl _, definition.suffix_of_occurrences around _ use member⟩
  | .classDecl name superclass methods classMethods => by
    have inClass : scopes.declare [.named name] <:+
        (scopes.declare [.named name]).ofClass superclass := by
      cases superclass with
      | none => exact List.suffix_refl _
      | some target => exact List.suffix_cons _ _
    intro use member
    refine ⟨[.named name], List.prefix_refl _, ?_⟩
    rw [Stmt.occurrences, List.mem_append, List.mem_append] at member
    rcases member with (member | member) | member
    · rcases List.mem_map.mp member with ⟨target, -, rfl⟩
      exact List.suffix_refl _
    · exact inClass.trans (NamedFunction.suffix_of_occurrencesAll _ _ classMethods use member)
    · exact inClass.trans ((List.suffix_cons _ _).trans
        (NamedFunction.suffix_of_occurrencesAll _ _ methods use member))

theorem Stmt.isWithin_occurrencesAll (around : Surroundings) (scopes : Scopes) :
    ∀ statements : List Stmt, ∀ use ∈ Stmt.occurrencesAll around scopes statements,
      use.IsWithin scopes (Stmt.localsAll statements)
  | [] => List.forall_mem_nil _
  | first :: others => List.forall_mem_append.mpr
    ⟨fun use member => (first.isWithin_occurrences around scopes use member).left,
      fun use member => (Stmt.isWithin_occurrencesAll around _ others use member).right⟩

end

/-- A use of a local is spelt like the local. -/
theorem Occurrence.IsSpelt.name_eq {spelling : Spelling} {scopes : Scopes} {locals : List Local}
    {use use' : Occurrence} (spelt : use.IsSpelt spelling use')
    (within : use.IsWithin ([] :: scopes) locals) {slot : Nat} (means : use.Means scopes.length slot)
    {declared : Local} (here : locals[slot]? = some declared) :
    use'.name = (declared.spell spelling).text := by
  rcases within with ⟨row, ⟨more, rfl⟩, inner, split⟩
  rcases (use.means_iff _ _).mp means with ⟨depth, found, deep⟩
  have same : inner.length = depth := by
    rw [← split, List.length_append, Scopes.length_declare, List.length_cons] at deep
    omega
  rw [← spelt.address] at found
  rcases Occurrence.exists_local_of_address? found with ⟨locals', declared', inScopes, here', text⟩
  have isRow : locals' = row.map (Local.spell spelling) := by
    rw [spelt.scopes, ← split, ← same, Scopes.spell, List.map_append, List.getElem?_append_right
      (by rw [List.length_map]), List.length_map, Nat.sub_self] at inScopes
    exact (Option.some.inj inScopes).symm
  rw [isRow, List.getElem?_map, Option.map_eq_some_iff] at here'
  rcases here' with ⟨original, inRow, rfl⟩
  rw [List.getElem?_append_left (List.getElem?_eq_some_iff.mp inRow).1, inRow] at here
  cases here
  exact text.symm

/-! ## Sites -/

/-- Each entry of a list belongs to one of the other list. -/
theorem exists_mem_of_forall₂ {α β : Type} {related : α → β → Prop} {left : List α}
    {right : List β} (all : List.Forall₂ related left right) {second : β}
    (member : second ∈ right) : ∃ first ∈ left, related first second := by
  induction all with
  | nil => cases member
  | cons here _ induction =>
    rcases List.mem_cons.mp member with rfl | member
    · exact ⟨_, List.mem_cons_self, here⟩
    · rcases induction member with ⟨first, isIn, same⟩
      exact ⟨first, List.mem_cons_of_mem _ isIn, same⟩

section

variable {spelling : Spelling} {mentions : List Mention} {uses : List Occurrence}

/-- A place as it is spelt. -/
structure Place.IsSpelt (spelling : Spelling) (mentions : List Mention) (place place' : Place) :
    Prop where
  role : place'.role = place.role
  around : place'.around = place.around
  initialises : Option.Rel (fun name name' => ∃ mention ∈ mentions,
    mention.name.text = name ∧ spelling.text mention.name = name')
    place.initialises place'.initialises
  scopes : place'.scopes = place.scopes.spell spelling

/-- A part of a program as it is spelt. -/
inductive Part.IsSpelt (spelling : Spelling) (mentions : List Mention) (place : Place) :
    Part → Part → Prop where
  | read {target : Reference} (mentioned : .use target ∈ mentions) :
    IsSpelt spelling mentions place (.read target.name.text)
      (.read (spelling.text target.name))
  | this : IsSpelt spelling mentions place .this .this
  | super : IsSpelt spelling mentions place .super .super
  | returns (hasValue : Bool) : IsSpelt spelling mentions place (.returns hasValue)
    (.returns hasValue)
  | subclass {name : Name} {target : Reference} (nameMentioned : .label name ∈ mentions)
    (mentioned : .use target ∈ mentions) :
    IsSpelt spelling mentions place (.subclass name.text target.name.text)
      (.subclass (spelling.text name) (spelling.text target.name))
  | parameters {names : List Name} (mentioned : ∀ name ∈ names, .parameter name ∈ mentions) :
    IsSpelt spelling mentions place (.parameters names)
      (.parameters (names.map (Name.spell spelling)))
  | body {locals : List Local} {all all' : List Occurrence}
    (among : ∀ name, .named name ∈ locals → name.IsDeclared mentions)
    (within : ∀ use ∈ all, use.IsWithin ([] :: place.scopes) locals)
    (spelt : List.Forall₂ (Occurrence.IsSpelt spelling) all all') :
    IsSpelt spelling mentions place (.body locals all)
      (.body (locals.map (Local.spell spelling)) all')

/-- A site as it is spelt. -/
structure Site.IsSpelt (spelling : Spelling) (mentions : List Mention) (site site' : Site) :
    Prop where
  place : Place.IsSpelt spelling mentions site.place site'.place
  part : Part.IsSpelt spelling mentions site.place site.part site'.part

/-- Locals with different names are spelt differently. -/
theorem Spelling.IsConsistent.text_inj (consistent : spelling.IsConsistent mentions uses)
    {first second : Local}
    (among : ∀ name, first = .named name → name.IsDeclared mentions)
    (among' : ∀ name, second = .named name → name.IsDeclared mentions)
    (same : (first.spell spelling).text = (second.spell spelling).text) :
    first.text = second.text := by
  cases second with
  | this => exact (consistent.text_spell_iff this_isReserved first among).mp same
  | super => exact (consistent.text_spell_iff super_isReserved first among).mp same
  | named name =>
    cases first with
    | this => exact ((consistent.text_spell_iff this_isReserved _ among').mp same.symm).symm
    | super => exact ((consistent.text_spell_iff super_isReserved _ among').mp same.symm).symm
    | named name' =>
      rcases among name' rfl with ⟨mention, isIn, declares⟩
      rcases among' name rfl with ⟨mention', isIn', declares'⟩
      obtain rfl := mention.name_of_declared? declares
      obtain rfl := mention'.name_of_declared? declares'
      exact consistent.apart mention isIn mention' isIn' same

/-- A site obeys its rule if it does so with other names. -/
theorem Part.IsSpelt.isSound (consistent : spelling.IsConsistent mentions uses)
    {place place' : Place} (samePlace : place.IsSpelt spelling mentions place') {part part' : Part}
    (spelt : part.IsSpelt spelling mentions place part') (sound : Site.IsSound ⟨place, part⟩) :
    Site.IsSound ⟨place', part'⟩ := by
  cases spelt with
  | @read target mentioned =>
    have sound : place.initialises ≠ some target.name.text := sound
    show place'.initialises ≠ some (spelling.text target.name)
    have initialises := samePlace.initialises
    revert sound initialises
    generalize place.initialises = initial
    generalize place'.initialises = initial'
    rintro sound (⟨mention, isIn, rfl, rfl⟩ | _) same
    · have text := consistent.apart mention isIn _ mentioned (Option.some.inj same)
      exact sound (congrArg some text)
    · cases same
  | this => exact (congrArg Surroundings.allowsThis samePlace.around).trans sound
  | super => exact (congrArg Surroundings.allowsSuper samePlace.around).trans sound
  | returns hasValue =>
    rw [Site.IsSound, samePlace.role]
    exact sound
  | subclass nameMentioned mentioned =>
    intro same
    exact sound (consistent.apart _ mentioned _ nameMentioned same)
  | @parameters names mentioned =>
    have distinct : (names.map Name.text).Nodup := sound
    show ((names.map (Name.spell spelling)).map Name.text).Nodup
    rw [List.map_map]
    rw [List.Nodup, List.pairwise_map] at distinct ⊢
    apply distinct.imp_of_mem
    intro first second isFirst isSecond different same
    exact different (consistent.apart _ (mentioned first isFirst) _ (mentioned second isSecond)
      same)
  | @body locals all all' among within spelt =>
    rcases sound with ⟨distinct, used⟩
    constructor
    · rw [List.map_map]
      rw [List.Nodup, List.pairwise_map] at distinct ⊢
      apply distinct.imp_of_mem
      intro first second isFirst isSecond different same
      apply different
      apply consistent.text_inj _ _ same
      · rintro name rfl
        exact among name isFirst
      · rintro name rfl
        exact among name isSecond
    · intro slot declared' here
      rw [List.getElem?_map, Option.map_eq_some_iff] at here
      rcases here with ⟨declared, here, rfl⟩
      rcases used slot declared here with ⟨use, isUse, means, -⟩
      rcases exists_mem_of_forall₂ spelt.flip isUse with ⟨use', isUse', same⟩
      refine ⟨use', isUse', ?_, same.name_eq (within use isUse) means here⟩
      rw [Occurrence.means_iff] at means ⊢
      rw [same.address, same.scopes, samePlace.scopes, Scopes.spell, Scopes.spell,
        List.length_map, List.length_map]
      exact means

/-! ## The sites in a program -/

/-- A spelling is consistent in a place. -/
structure Spelling.FitsAt (spelling : Spelling) (mentions : List Mention)
    (uses : List Occurrence) (place place' : Place) : Prop where
  fits : spelling.Fits mentions uses place.scopes
  same : place.IsSpelt spelling mentions place'

namespace Spelling.FitsAt

variable {place place' : Place} (stands : spelling.FitsAt mentions uses place place')
include stands

theorem declare {locals : List Local}
    (here : ∀ name, .named name ∈ locals → name.IsDeclared mentions) :
    spelling.FitsAt mentions uses (place.declare locals)
      (place'.declare (locals.map (Local.spell spelling))) := by
  refine ⟨stands.fits.declare here, { stands.same with scopes := ?_ }⟩
  rw [Place.declare, Place.declare, stands.same.scopes, Scopes.spell_declare]

theorem initialising {name : Name} {isLocal : Bool}
    (mentioned : .declaration name isLocal ∈ mentions) :
    spelling.FitsAt mentions uses (place.initialising name)
      (place'.initialising (name.spell spelling)) := by
  have inside := stands.declare (isDeclared_of_mentioned mentioned rfl)
  refine ⟨inside.fits, { inside.same with initialises := ?_ }⟩
  have outermost : place'.scopes.isEmpty = place.scopes.isEmpty := by
    rw [stands.same.scopes, Scopes.spell, List.isEmpty_map]
  rw [Place.initialising, Place.initialising, outermost]
  split
  · exact .none
  · exact .some ⟨_, mentioned, rfl, rfl⟩

theorem inBlock : spelling.FitsAt mentions uses place.inBlock place'.inBlock :=
  ⟨stands.fits.openScope, { stands.same with scopes := congrArg (List.cons []) stands.same.scopes }⟩

theorem inFunction (role : FunctionContext) {parameters : List Name}
    (mentioned : parameters.map .parameter ⊆ mentions) :
    spelling.FitsAt mentions uses (place.inFunction role parameters)
      (place'.inFunction role (parameters.map (Name.spell spelling))) := by
  refine ⟨(stands.fits.openWith (isDeclared_of_parameters mentioned)).openScope, rfl,
    stands.same.around, .none, ?_⟩
  rw [Place.inFunction, Place.inFunction, stands.same.scopes, ← Scopes.spell_function]

theorem inClass (around : Surroundings) {scopes : Scopes}
    (fits : spelling.Fits mentions uses scopes) :
    spelling.FitsAt mentions uses (place.inClass around scopes)
      (place'.inClass around (scopes.spell spelling)) :=
  ⟨fits, { stands.same with around := rfl, scopes := rfl }⟩

theorem roleOf_eq {name : Name} (mentioned : .label name ∈ mentions) :
    place'.roleOf (name.spell spelling) = place.roleOf name := by
  rw [Place.roleOf, Place.roleOf, stands.same.around, Name.text_spell,
    stands.fits.labels name mentioned]

theorem site {part part' : Part} (same : part.IsSpelt spelling mentions place part') :
    Site.IsSpelt spelling mentions ⟨place, part⟩ ⟨place', part'⟩ :=
  ⟨stands.same, same⟩

end Spelling.FitsAt

mutual

theorem Expr.sites_spell {place place' : Place}
    (stands : spelling.FitsAt mentions uses place place') : ∀ expression : Expr,
    expression.mentions ⊆ mentions → expression.occurrences place.around place.scopes ⊆ uses →
      List.Forall₂ (Site.IsSpelt spelling mentions) (expression.sites place)
        ((expression.spell spelling).sites place')
  | .literal _, _, _ => .nil
  | .group inner, mentioned, areUses => inner.sites_spell stands mentioned areUses
  | .unary _ _ operand, mentioned, areUses => operand.sites_spell stands mentioned areUses
  | .binary _ _ left right, mentioned, areUses => by
    rw [Expr.mentions, List.append_subset] at mentioned
    rw [Expr.occurrences, List.append_subset] at areUses
    exact List.rel_append (left.sites_spell stands mentioned.1 areUses.1)
      (right.sites_spell stands mentioned.2 areUses.2)
  | .logical _ _ left right, mentioned, areUses => by
    rw [Expr.mentions, List.append_subset] at mentioned
    rw [Expr.occurrences, List.append_subset] at areUses
    exact List.rel_append (left.sites_spell stands mentioned.1 areUses.1)
      (right.sites_spell stands mentioned.2 areUses.2)
  | .read _, mentioned, _ => .cons (stands.site (.read (mentioned List.mem_cons_self))) .nil
  | .assign _ value, mentioned, areUses => by
    rw [Expr.mentions, List.cons_subset] at mentioned
    rw [Expr.occurrences, List.append_subset] at areUses
    exact value.sites_spell stands mentioned.2 areUses.1
  | .call callee _ arguments, mentioned, areUses => by
    rw [Expr.mentions, List.append_subset] at mentioned
    rw [Expr.occurrences, List.append_subset] at areUses
    exact List.rel_append (callee.sites_spell stands mentioned.1 areUses.1)
      (Expr.sitesAll_spell stands arguments mentioned.2 areUses.2)
  | .function definition, mentioned, areUses =>
    definition.sites_spell .function stands mentioned areUses
  | .get object _, mentioned, areUses => by
    rw [Expr.mentions, List.append_subset] at mentioned
    exact object.sites_spell stands mentioned.1 areUses
  | .set object _ value, mentioned, areUses => by
    rw [Expr.mentions, List.append_subset, List.cons_subset] at mentioned
    rw [Expr.occurrences, List.append_subset] at areUses
    exact List.rel_append (object.sites_spell stands mentioned.1 areUses.1)
      (value.sites_spell stands mentioned.2.2 areUses.2)
  | .this _ _, _, _ => .cons (stands.site .this) .nil
  | .super _ _ _, _, _ => .cons (stands.site .super) .nil

theorem Expr.sitesAll_spell {place place' : Place}
    (stands : spelling.FitsAt mentions uses place place') : ∀ expressions : List Expr,
    Expr.mentionsAll expressions ⊆ mentions →
      Expr.occurrencesAll place.around place.scopes expressions ⊆ uses →
      List.Forall₂ (Site.IsSpelt spelling mentions) (Expr.sitesAll place expressions)
        (Expr.sitesAll place' (Expr.spellAll spelling expressions))
  | [], _, _ => .nil
  | first :: others, mentioned, areUses => by
    rw [Expr.mentionsAll, List.append_subset] at mentioned
    rw [Expr.occurrencesAll, List.append_subset] at areUses
    exact List.rel_append (first.sites_spell stands mentioned.1 areUses.1)
      (Expr.sitesAll_spell stands others mentioned.2 areUses.2)

theorem Function.sites_spell (role : FunctionContext) {place place' : Place}
    (stands : spelling.FitsAt mentions uses place place') : ∀ definition : Function,
    definition.mentions ⊆ mentions → definition.occurrences place.around place.scopes ⊆ uses →
      List.Forall₂ (Site.IsSpelt spelling mentions) (definition.sites role place)
        ((definition.spell spelling).sites role place')
  | .mk parameters body, mentioned, areUses => by
    rw [Function.mentions, List.append_subset] at mentioned
    have inside := stands.inFunction role mentioned.1
    have statements := Stmt.sitesAll_spell inside true body mentioned.2 areUses
    have occurrences := Stmt.occurrencesAll_spell place.around inside.fits true body mentioned.2
      areUses
    have outside : Place.IsSpelt spelling mentions
        ⟨role, place.around, none, parameters.map Local.named :: place.scopes⟩
        ⟨role, place'.around, none,
          (parameters.map (Name.spell spelling)).map Local.named :: place'.scopes⟩ :=
      ⟨rfl, stands.same.around, .none, congrArg List.tail inside.same.scopes⟩
    rw [← inside.same.scopes] at occurrences
    rw [Function.spell, Function.sites, Function.sites]
    refine .cons (stands.site (.parameters ?_)) (.cons ⟨outside, ?_⟩ statements)
    · intro name isParameter
      exact mentioned.1 (List.mem_map_of_mem isParameter)
    · rw [Stmt.localsAll_spell, stands.same.around]
      apply Part.IsSpelt.body _ _ occurrences
      · exact Stmt.isDeclared_of_mentionsAll body true mentioned.2
      · exact Stmt.isWithin_occurrencesAll _ _ body

theorem NamedFunction.sitesAll_spell {place place' : Place}
    (stands : spelling.FitsAt mentions uses place place') : ∀ functions : List NamedFunction,
    NamedFunction.mentionsAll functions ⊆ mentions →
      NamedFunction.occurrencesAll place.around place.scopes functions ⊆ uses →
      List.Forall₂ (Site.IsSpelt spelling mentions) (NamedFunction.sitesAll place functions)
        (NamedFunction.sitesAll place' (NamedFunction.spellAll spelling functions))
  | [], _, _ => .nil
  | .mk name definition :: others, mentioned, areUses => by
    rw [NamedFunction.mentionsAll, List.cons_subset, List.append_subset] at mentioned
    rw [NamedFunction.occurrencesAll, List.append_subset] at areUses
    rw [NamedFunction.spellAll, NamedFunction.sitesAll, NamedFunction.sitesAll,
      stands.roleOf_eq mentioned.1]
    exact List.rel_append (definition.sites_spell _ stands mentioned.2.1 areUses.1)
      (NamedFunction.sitesAll_spell stands others mentioned.2.2 areUses.2)

theorem Stmt.sites_spell {place place' : Place}
    (stands : spelling.FitsAt mentions uses place place') (isLocal : Bool) : ∀ statement : Stmt,
    statement.mentions isLocal ⊆ mentions →
      statement.occurrences place.around place.scopes ⊆ uses →
      List.Forall₂ (Site.IsSpelt spelling mentions) (statement.sites place)
        ((statement.spell spelling).sites place')
  | .varDecl _ none, _, _ | .breakLoop _, _, _ => .nil
  | .expression value, mentioned, areUses => value.sites_spell stands mentioned areUses
  | .print value, mentioned, areUses => value.sites_spell stands mentioned areUses
  | .returnValue _ none, _, _ => .cons (stands.site (.returns false)) .nil
  | .returnValue _ (some value), mentioned, areUses =>
    .cons (stands.site (.returns true)) (value.sites_spell stands mentioned areUses)
  | .varDecl name (some initial), mentioned, areUses => by
    rw [Stmt.mentions, List.cons_subset] at mentioned
    exact initial.sites_spell (stands.initialising mentioned.1) mentioned.2 areUses
  | .block body, mentioned, areUses => by
    have inside := stands.inBlock
    have statements := Stmt.sitesAll_spell inside true body mentioned areUses
    have occurrences := Stmt.occurrencesAll_spell place.around inside.fits true body mentioned
      areUses
    rw [← inside.same.scopes] at occurrences
    rw [Stmt.spell, Stmt.sites, Stmt.sites]
    refine .cons (stands.site ?_) statements
    rw [Stmt.localsAll_spell, stands.same.around]
    apply Part.IsSpelt.body _ _ occurrences
    · exact Stmt.isDeclared_of_mentionsAll body true mentioned
    · exact Stmt.isWithin_occurrencesAll _ _ body
  | .ifElse condition whenTrue none, mentioned, areUses => by
    rw [Stmt.mentions, List.append_subset] at mentioned
    rw [Stmt.occurrences, List.append_subset] at areUses
    exact List.rel_append (condition.sites_spell stands mentioned.1 areUses.1)
      (whenTrue.sites_spell stands isLocal mentioned.2 areUses.2)
  | .ifElse condition whenTrue (some whenFalse), mentioned, areUses => by
    rw [Stmt.mentions, List.append_subset, List.append_subset] at mentioned
    rw [Stmt.occurrences, List.append_subset, List.append_subset] at areUses
    have behind := stands.declare (whenTrue.isDeclared_of_mentions isLocal mentioned.1.2)
    rw [← whenTrue.locals_spell] at behind
    exact List.rel_append (List.rel_append
      (condition.sites_spell stands mentioned.1.1 areUses.1.1)
      (whenTrue.sites_spell stands isLocal mentioned.1.2 areUses.1.2))
      (whenFalse.sites_spell behind isLocal mentioned.2 areUses.2)
  | .whileLoop condition body, mentioned, areUses => by
    rw [Stmt.mentions, List.append_subset] at mentioned
    rw [Stmt.occurrences, List.append_subset] at areUses
    exact List.rel_append (condition.sites_spell stands mentioned.1 areUses.1)
      (body.sites_spell stands isLocal mentioned.2 areUses.2)
  | .funDecl (.mk name definition), mentioned, areUses => by
    have inside := stands.declare (isDeclared_of_mentioned (mentioned List.mem_cons_self) rfl)
    rw [Stmt.mentions, List.cons_subset] at mentioned
    exact definition.sites_spell .function inside mentioned.2 areUses
  | .classDecl name superclass methods classMethods, mentioned, areUses => by
    have declared := stands.declare (isDeclared_of_mentioned (mentioned List.mem_cons_self) rfl)
    have inClass := declared.fits.ofClass superclass
    rw [Stmt.mentions, List.cons_subset, List.append_subset, List.append_subset] at mentioned
    rw [Stmt.occurrences, List.append_subset, List.append_subset] at areUses
    have ofClass := NamedFunction.sitesAll_spell (declared.inClass .classMethod inClass)
      classMethods mentioned.2.2.2 areUses.1.2
    have ofInstance := NamedFunction.sitesAll_spell
      (declared.inClass (.method superclass.isSome) inClass.openThis) methods mentioned.2.2.1
      areUses.2
    have extended : List.Forall₂ (Site.IsSpelt spelling mentions)
        (superclass.toList.flatMap fun target =>
          [⟨place.declare [.named name], .subclass name.text target.name.text⟩,
            ⟨place.declare [.named name], .read target.name.text⟩])
        ((superclass.map (Reference.spell spelling)).toList.flatMap fun target =>
          [⟨place'.declare [.named (name.spell spelling)],
              .subclass (name.spell spelling).text target.name.text⟩,
            ⟨place'.declare [.named (name.spell spelling)], .read target.name.text⟩]) := by
      cases superclass with
      | none => exact .nil
      | some target =>
        have isUse : .use target ∈ mentions := mentioned.2.1 List.mem_cons_self
        exact .cons (declared.site (.subclass mentioned.1 isUse))
          (.cons (declared.site (.read isUse)) .nil)
    rw [Scopes.spell_this] at ofInstance
    rw [Scopes.spell_ofClass, ← declared.same.scopes] at ofClass ofInstance
    rw [Stmt.spell, Stmt.sites, Stmt.sites, Option.isSome_map]
    exact List.rel_append (List.rel_append extended ofClass) ofInstance

theorem Stmt.sitesAll_spell {place place' : Place}
    (stands : spelling.FitsAt mentions uses place place') (isLocal : Bool) :
    ∀ statements : List Stmt, Stmt.mentionsAll isLocal statements ⊆ mentions →
      Stmt.occurrencesAll place.around place.scopes statements ⊆ uses →
      List.Forall₂ (Site.IsSpelt spelling mentions) (Stmt.sitesAll place statements)
        (Stmt.sitesAll place' (Stmt.spellAll spelling statements))
  | [], _, _ => .nil
  | first :: others, mentioned, areUses => by
    rw [Stmt.mentionsAll, List.append_subset] at mentioned
    rw [Stmt.occurrencesAll, List.append_subset] at areUses
    have behind := stands.declare (first.isDeclared_of_mentions isLocal mentioned.1)
    rw [← first.locals_spell] at behind
    exact List.rel_append (first.sites_spell stands isLocal mentioned.1 areUses.1)
      (Stmt.sitesAll_spell behind isLocal others mentioned.2 areUses.2)

end

end

/-! ## Whole programs -/

theorem filterMap_binding?_eq {spelling : Spelling} {all all' : List Occurrence}
    (same : List.Forall₂ (Occurrence.IsSpelt spelling) all all') :
    all'.filterMap Occurrence.binding? = all.filterMap Occurrence.binding? := by
  induction same with
  | nil => rfl
  | cons first _ induction =>
    rw [List.filterMap_cons, List.filterMap_cons, induction, Occurrence.binding?,
      Occurrence.binding?, first.address, first.id]

variable {spelling : Spelling} {program : List Stmt}
  (consistent : spelling.IsConsistent (Program.mentions program) (Program.occurrences program))
include consistent

theorem Spelling.IsConsistent.fits :
    spelling.Fits (Program.mentions program) (Program.occurrences program) [] :=
  { consistent with among := List.forall_mem_nil _ }

/-- The uses of a program have the same addresses as it is spelt. -/
theorem bindings_spell :
    (resolve (Stmt.spellAll spelling program)).bindings = (resolve program).bindings := by
  rw [bindings_resolve, bindings_resolve]
  exact filterMap_binding?_eq (Stmt.occurrencesAll_spell .outside consistent.fits false program
    (List.Subset.refl _) (List.Subset.refl _))

/--
If nothing is wrong with a program, nothing is as it is spelt consistently, and the same places
are recorded.
-/
theorem resolve_spell (sound : (resolve program).errors = []) :
    resolve (Stmt.spellAll spelling program) = ⟨[], (resolve program).bindings⟩ := by
  have stands : spelling.FitsAt (Program.mentions program) (Program.occurrences program)
      .program .program := ⟨consistent.fits, rfl, rfl, .none, rfl⟩
  have same := Stmt.sitesAll_spell stands false program (List.Subset.refl _) (List.Subset.refl _)
  have errors : (resolve (Stmt.spellAll spelling program)).errors = [] := by
    rw [errors_resolve] at sound ⊢
    intro site' member
    rcases exists_mem_of_forall₂ same member with ⟨site, isSite, spelt⟩
    exact spelt.part.isSound consistent spelt.place (sound site isSite)
  rw [← bindings_spell consistent, ← errors]

end Lox
