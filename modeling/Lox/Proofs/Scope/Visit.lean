import Lox.Proofs.Scope.Opening

/-!
# What a visit records

`Walk.visits_statements` says that a visit passes the uses of variables in the visited
tree in their order, that then the scopes are open which surround them there, and that
it records the addresses of those that mean a local.
-/

namespace Lox

/-- The record of the local that a use means, if it means one. -/
def Occurrence.binding? (occurrence : Occurrence) : Option Binding :=
  occurrence.address?.map fun address => ⟨occurrence.id, address⟩

/-- The innermost method around the statements in a context. -/
def Context.surroundings (context : Context) : Surroundings :=
  match context.ofClass, context.inClassMethod with
  | .outside, _ => .outside
  | _, true => .classMethod
  | .plain, false => .method false
  | .subclass, false => .method true

theorem Context.thisFault?_eq_none_iff (context : Context) :
    context.thisFault? = none ↔ context.surroundings.allowsThis := by
  rcases context with ⟨role, ofClass, inClassMethod⟩
  cases ofClass <;> cases inClassMethod <;>
    simp [thisFault?, surroundings, Surroundings.allowsThis]

theorem Context.superFault?_eq_none_iff (context : Context) :
    context.superFault? = none ↔ context.surroundings.allowsSuper := by
  rcases context with ⟨role, ofClass, inClassMethod⟩
  cases ofClass <;> cases inClassMethod <;>
    simp [superFault?, surroundings, Surroundings.allowsSuper]

/-! ## Passages -/

/-- The walk passes a use of a variable: the id of the use, and the scopes that are open. -/
structure Passage where
  id : Nat
  scopes : List Scope

/-- The walk passes a use in the scopes that surround it. -/
structure Passage.IsOf (passage : Passage) (occurrence : Occurrence) : Prop where
  id_eq : passage.id = occurrence.id
  scopes : List.Forall₂ Scope.IsFor passage.scopes occurrence.scopes

/-- The walk passes a use now. -/
def Walk.passage (id : Nat) (walk : Walk) : Passage :=
  ⟨id, walk.scopes⟩

mutual

/-- What the walk passes in an expression. -/
def Expr.passages (context : Context) (walk : Walk) : Expr → List Passage
  | .literal _ => []
  | .group inner => inner.passages context walk
  | .unary _ _ operand => operand.passages context walk
  | .binary _ _ left right =>
    left.passages context walk ++ right.passages context (walk.expression context left)
  | .logical _ _ left right =>
    left.passages context walk ++ right.passages context (walk.expression context left)
  | .read target => [walk.passage target.id]
  | .assign target value =>
    value.passages context walk ++ [(walk.expression context value).passage target.id]
  | .call callee _ arguments =>
    callee.passages context walk ++
      Expr.passagesAll context (walk.expression context callee) arguments
  | .function definition => definition.passages { context with function := .function } walk
  | .get object _ => object.passages context walk
  | .set object _ value =>
    object.passages context walk ++ value.passages context (walk.expression context object)
  | .this id _ => [walk.passage id]
  | .super id _ _ => [walk.passage id]

/-- What the walk passes in expressions. -/
def Expr.passagesAll (context : Context) (walk : Walk) : List Expr → List Passage
  | [] => []
  | first :: others =>
    first.passages context walk ++ Expr.passagesAll context (walk.expression context first) others

/-- What the walk passes in a function. -/
def Function.passages (context : Context) (walk : Walk) : Function → List Passage
  | .mk parameters body => Stmt.passagesAll context (walk.openParameters parameters).openScope body

/-- What the walk passes in the methods of a class. -/
def NamedFunction.passagesAll (context : Context) (walk : Walk) :
    List NamedFunction → List Passage
  | [] => []
  | .mk name definition :: others =>
    let context' := { context with function :=
      if !context.inClassMethod && name.text = "init" then .initializer else .method }
    definition.passages context' walk ++
      NamedFunction.passagesAll context (walk.function context' definition) others

/-- What the walk passes in a statement. -/
def Stmt.passages (context : Context) (walk : Walk) : Stmt → List Passage
  | .expression value => value.passages context walk
  | .print value => value.passages context walk
  | .varDecl _ none => []
  | .varDecl name (some initial) => initial.passages context (walk.declare name false false)
  | .block body => Stmt.passagesAll context walk.openScope body
  | .ifElse condition whenTrue none =>
    condition.passages context walk ++ whenTrue.passages context (walk.expression context condition)
  | .ifElse condition whenTrue (some whenFalse) =>
    condition.passages context walk ++
      whenTrue.passages context (walk.expression context condition) ++
      whenFalse.passages context ((walk.expression context condition).statement context whenTrue)
  | .whileLoop condition body =>
    condition.passages context walk ++ body.passages context (walk.expression context condition)
  | .breakLoop _ => []
  | .funDecl (.mk name definition) =>
    definition.passages { context with function := .function } (walk.declare name true false)
  | .returnValue _ none => []
  | .returnValue line (some value) =>
    let walk := walk.returns context line
    value.passages context
      (if context.function = .initializer then walk.report line .initializerReturnsValue else walk)
  | .classDecl name none methods classMethods =>
    let declared := walk.declare name true false
    let inClass := declared.methods ⟨context.function, .plain, true⟩ classMethods
    NamedFunction.passagesAll ⟨context.function, .plain, true⟩ declared classMethods ++
      NamedFunction.passagesAll ⟨context.function, .plain, false⟩
        (inClass.openImplicit "this" name.line) methods
  | .classDecl name (some target) methods classMethods =>
    let declared := walk.declare name true false
    let extending := (declared.superclass name target).openImplicit "super" name.line
    let inClass := extending.methods ⟨context.function, .subclass, true⟩ classMethods
    declared.passage target.id ::
      (NamedFunction.passagesAll ⟨context.function, .subclass, true⟩ extending classMethods ++
        NamedFunction.passagesAll ⟨context.function, .subclass, false⟩
          (inClass.openImplicit "this" name.line) methods)

/-- What the walk passes in statements. -/
def Stmt.passagesAll (context : Context) (walk : Walk) : List Stmt → List Passage
  | [] => []
  | first :: others =>
    first.passages context walk ++ Stmt.passagesAll context (walk.statement context first) others

end

/-- What the walk through a program passes. -/
def Program.passages (program : List Stmt) : List Passage :=
  Stmt.passagesAll .program .start program

/-! ## Visits -/

namespace Walk

/--
Between two states the walk has passed the uses of a tree, and in the second one these
scopes are open.  All uses are legal if nothing is wrong.
-/
structure Visits (before after : Walk) (scopes : Scopes) (occurrences : List Occurrence)
    (passages : List Passage) : Prop where
  opens : after.Opens scopes
  passes : List.Forall₂ Passage.IsOf passages occurrences
  bindings : after.bindings.toList =
    before.bindings.toList ++ occurrences.filterMap Occurrence.binding?
  errors : after.errors = #[] →
    before.errors = #[] ∧ ∀ occurrence ∈ occurrences, occurrence.isLegal

namespace Visits

variable {before middle after : Walk} {scopes scopes' : Scopes}
  {occurrences occurrences' : List Occurrence} {passages passages' : List Passage}

/-- Nothing is visited if no record is made. -/
theorem none (opens : after.Opens scopes) (quiet : Quiet before after) :
    Visits before after scopes [] [] := by
  constructor
  · exact opens
  · exact .nil
  · rw [quiet.bindings, List.filterMap_nil, List.append_nil]
  · exact fun none => ⟨quiet.errors none, by simp⟩

theorem trans (first : Visits before middle scopes occurrences passages)
    (second : Visits middle after scopes' occurrences' passages') :
    Visits before after scopes' (occurrences ++ occurrences') (passages ++ passages') := by
  constructor
  · exact second.opens
  · exact List.rel_append first.passes second.passes
  · rw [second.bindings, first.bindings, List.filterMap_append, List.append_assoc]
  · intro none
    have later := second.errors none
    have earlier := first.errors later.1
    exact ⟨earlier.1, List.forall_mem_append.mpr ⟨earlier.2, later.2⟩⟩

/-- A step that makes no record may precede a visit. -/
theorem after_quiet (visit : Visits middle after scopes occurrences passages)
    (quiet : Quiet before middle) : Visits before after scopes occurrences passages := by
  constructor
  · exact visit.opens
  · exact visit.passes
  · rw [visit.bindings, quiet.bindings]
  · intro none
    have earlier := visit.errors none
    exact ⟨quiet.errors earlier.1, earlier.2⟩

/-- A step that makes no record may follow a visit. -/
theorem then_quiet (visit : Visits before middle scopes occurrences passages)
    (opens : after.Opens scopes') (quiet : Quiet middle after) :
    Visits before after scopes' occurrences passages := by
  constructor
  · exact opens
  · exact visit.passes
  · rw [quiet.bindings, visit.bindings]
  · exact fun none => visit.errors (quiet.errors none)

/-- Closing a scope makes no record. -/
theorem closeScope {locals : List Local}
    (visit : Visits before after (locals :: scopes) occurrences passages) :
    Visits before after.closeScope scopes occurrences passages :=
  visit.then_quiet visit.opens.closeScope (quiet_closeScope after)

end Visits

variable {walk : Walk} {scopes : Scopes}

/-- A legal use of a name is recorded with the address of the local that it means. -/
theorem visits_refer (opens : walk.Opens scopes) (id : Nat) (name : String) :
    Visits walk (walk.refer id name) scopes [⟨id, name, true, scopes⟩] [walk.passage id] := by
  constructor
  · exact opens.refer id name
  · exact .cons ⟨rfl, opens⟩ .nil
  · rw [bindings_refer, opens.names_eq]
    simp only [Occurrence.binding?, Occurrence.address?, List.filterMap_cons, List.filterMap_nil]
    cases locate? name scopes.names <;> simp
  · rw [errors_refer]
    exact fun none => ⟨none, by simp⟩

theorem visits_read (opens : walk.Opens scopes) (target : Reference) :
    Visits walk (walk.read target) scopes [target.occurrence scopes]
      [walk.passage target.id] := by
  unfold read
  extract_lets pending reported
  have same : reported.scopes = walk.scopes := by
    simp only [reported]
    split <;> rfl
  have quiet : Quiet walk reported := by
    simp only [reported]
    split
    · exact quiet_report _ _ walk
    · exact .refl walk
  have opened : reported.Opens scopes := by
    rw [Opens, same]
    exact opens
  have visit := (visits_refer opened target.id target.name.text).after_quiet quiet
  rw [passage, same] at visit
  exact visit

/-- An illegal use of `this` or `super` makes no record. -/
theorem visits_readImplicit (opens : walk.Opens scopes) (fault? : Option BindingFault)
    (id line : Nat) (name : String) {legal : Bool} (fits : fault? = none ↔ legal) :
    Visits walk (walk.readImplicit fault? id line name) scopes [⟨id, name, legal, scopes⟩]
      [walk.passage id] := by
  cases legal with
  | true =>
    rw [fits.mpr rfl]
    exact visits_refer opens id name
  | false =>
    cases fault? with
    | none => simp at fits
    | some fault =>
      constructor
      · exact opens
      · exact .cons ⟨rfl, opens⟩ .nil
      · simp [readImplicit, report, Occurrence.binding?, Occurrence.address?]
      · exact fun none => absurd none Array.push_ne_empty

theorem visits_superclass (opens : walk.Opens scopes) (name : Name) (target : Reference) :
    Visits walk (walk.superclass name target) scopes [target.occurrence scopes]
      [walk.passage target.id] := by
  unfold superclass
  extract_lets reported
  have same : reported.scopes = walk.scopes := by
    simp only [reported]
    split <;> rfl
  have quiet : Quiet walk reported := by
    simp only [reported]
    split
    · exact quiet_report _ _ walk
    · exact .refl walk
  have opened : reported.Opens scopes := by
    rw [Opens, same]
    exact opens
  have visit := (visits_read opened target).after_quiet quiet
  rw [passage, same] at visit
  exact visit

mutual

theorem visits_expression (context : Context) (walk : Walk) (scopes : Scopes)
    (opens : walk.Opens scopes) : ∀ expression : Expr,
      Visits walk (walk.expression context expression) scopes
        (expression.occurrences context.surroundings scopes) (expression.passages context walk)
  | .literal _ => by
    simp only [expression, Expr.occurrences, Expr.passages]
    exact .none opens (.refl walk)
  | .group inner => by
    simp only [expression, Expr.occurrences, Expr.passages]
    exact visits_expression context walk scopes opens inner
  | .unary _ _ operand => by
    simp only [expression, Expr.occurrences, Expr.passages]
    exact visits_expression context walk scopes opens operand
  | .binary _ _ left right => by
    simp only [expression, Expr.occurrences, Expr.passages]
    have first := visits_expression context walk scopes opens left
    exact first.trans (visits_expression context _ scopes first.opens right)
  | .logical _ _ left right => by
    simp only [expression, Expr.occurrences, Expr.passages]
    have first := visits_expression context walk scopes opens left
    exact first.trans (visits_expression context _ scopes first.opens right)
  | .read target => by
    simp only [expression, Expr.occurrences, Expr.passages]
    exact visits_read opens target
  | .assign target value => by
    simp only [expression, Expr.occurrences, Expr.passages]
    have first := visits_expression context walk scopes opens value
    exact first.trans (visits_refer first.opens target.id target.name.text)
  | .call callee _ arguments => by
    simp only [expression, Expr.occurrences, Expr.passages]
    have first := visits_expression context walk scopes opens callee
    exact first.trans (visits_expressions context _ scopes first.opens arguments)
  | .function definition => by
    simp only [expression, Expr.occurrences, Expr.passages]
    exact visits_function { context with function := .function } walk scopes opens definition
  | .get object _ => by
    simp only [expression, Expr.occurrences, Expr.passages]
    exact visits_expression context walk scopes opens object
  | .set object _ value => by
    simp only [expression, Expr.occurrences, Expr.passages]
    have first := visits_expression context walk scopes opens object
    exact first.trans (visits_expression context _ scopes first.opens value)
  | .this id line => by
    simp only [expression, Expr.occurrences, Expr.passages]
    exact visits_readImplicit opens _ id line "this" context.thisFault?_eq_none_iff
  | .super id line _ => by
    simp only [expression, Expr.occurrences, Expr.passages]
    exact visits_readImplicit opens _ id line "super" context.superFault?_eq_none_iff

theorem visits_expressions (context : Context) (walk : Walk) (scopes : Scopes)
    (opens : walk.Opens scopes) : ∀ expressions : List Expr,
      Visits walk (walk.expressions context expressions) scopes
        (Expr.occurrencesAll context.surroundings scopes expressions)
        (Expr.passagesAll context walk expressions)
  | [] => by
    simp only [expressions, Expr.occurrencesAll, Expr.passagesAll]
    exact .none opens (.refl walk)
  | value :: values => by
    simp only [expressions, Expr.occurrencesAll, Expr.passagesAll]
    have first := visits_expression context walk scopes opens value
    exact first.trans (visits_expressions context _ scopes first.opens values)

theorem visits_function (context : Context) (walk : Walk) (scopes : Scopes)
    (opens : walk.Opens scopes) : ∀ definition : Function,
      Visits walk (walk.function context definition) scopes
        (definition.occurrences context.surroundings scopes) (definition.passages context walk)
  | .mk parameters body => by
    simp only [function, Function.occurrences, Function.passages]
    have opened := opens.openParameters parameters
    have inner := visits_statements context (walk.openParameters parameters).openScope
      ([] :: parameters.map Local.named :: scopes) opened.openScope body
    exact inner.closeScope.closeScope.after_quiet
      ((quiet_openParameters parameters walk).trans (quiet_openScope _))

theorem visits_methods (context : Context) (walk : Walk) (scopes : Scopes)
    (opens : walk.Opens scopes) : ∀ methods : List NamedFunction,
      Visits walk (walk.methods context methods) scopes
        (NamedFunction.occurrencesAll context.surroundings scopes methods)
        (NamedFunction.passagesAll context walk methods)
  | [] => by
    simp only [methods, NamedFunction.occurrencesAll, NamedFunction.passagesAll]
    exact .none opens (.refl walk)
  | .mk name definition :: others => by
    simp only [methods, NamedFunction.occurrencesAll, NamedFunction.passagesAll]
    have first := visits_function
      { context with function :=
          if !context.inClassMethod && name.text = "init" then .initializer else .method }
      walk scopes opens definition
    exact first.trans (visits_methods context _ scopes first.opens others)

theorem visits_statement (context : Context) (walk : Walk) (scopes : Scopes)
    (opens : walk.Opens scopes) : ∀ statement : Stmt,
      Visits walk (walk.statement context statement) (scopes.declare statement.locals)
        (statement.occurrences context.surroundings scopes) (statement.passages context walk)
  | .expression value => by
    simp only [statement, Stmt.occurrences, Stmt.passages, Stmt.locals, Scopes.declare_nil]
    exact visits_expression context walk scopes opens value
  | .print value => by
    simp only [statement, Stmt.occurrences, Stmt.passages, Stmt.locals, Scopes.declare_nil]
    exact visits_expression context walk scopes opens value
  | .varDecl name none => by
    simp only [statement, Stmt.occurrences, Stmt.passages, Stmt.locals]
    have declared := opens.declare (.named name) false false rfl
    exact .none (declared.define name)
      ((quiet_declare name false false walk).trans (quiet_define name _))
  | .varDecl name (some initial) => by
    simp only [statement, Stmt.occurrences, Stmt.passages, Stmt.locals]
    have declared := opens.declare (.named name) false false rfl
    have visit := visits_expression context _ _ declared initial
    have defined := visit.then_quiet (visit.opens.define name) (quiet_define name _)
    exact defined.after_quiet (quiet_declare name false false walk)
  | .block body => by
    simp only [statement, Stmt.occurrences, Stmt.passages, Stmt.locals, Scopes.declare_nil]
    have inner := visits_statements context walk.openScope ([] :: scopes) opens.openScope body
    exact inner.closeScope.after_quiet (quiet_openScope walk)
  | .ifElse condition whenTrue none => by
    simp only [statement, Stmt.occurrences, Stmt.passages, Stmt.locals]
    have first := visits_expression context walk scopes opens condition
    exact first.trans (visits_statement context _ scopes first.opens whenTrue)
  | .ifElse condition whenTrue (some whenFalse) => by
    simp only [statement, Stmt.occurrences, Stmt.passages, Stmt.locals]
    have first := visits_expression context walk scopes opens condition
    have second := visits_statement context _ scopes first.opens whenTrue
    have third := visits_statement context _ _ second.opens whenFalse
    rw [Scopes.declare_declare] at third
    exact (first.trans second).trans third
  | .whileLoop condition body => by
    simp only [statement, Stmt.occurrences, Stmt.passages, Stmt.locals]
    have first := visits_expression context walk scopes opens condition
    exact first.trans (visits_statement context _ scopes first.opens body)
  | .breakLoop _ => by
    simp only [statement, Stmt.occurrences, Stmt.passages, Stmt.locals, Scopes.declare_nil]
    exact .none opens (.refl walk)
  | .funDecl (.mk name definition) => by
    simp only [statement, Stmt.occurrences, Stmt.passages, Stmt.locals, NamedFunction.name]
    have declared := opens.declare (.named name) true false rfl
    have visit := visits_function { context with function := .function } _ _ declared definition
    exact visit.after_quiet (quiet_declare name true false walk)
  | .returnValue line none => by
    simp only [statement, Stmt.occurrences, Stmt.passages, Stmt.locals, Scopes.declare_nil]
    exact .none (opens.returns context line) (quiet_returns context line walk)
  | .returnValue line (some value) => by
    simp only [statement, Stmt.occurrences, Stmt.passages, Stmt.locals, Scopes.declare_nil]
    have quiet := quiet_returns context line walk
    split
    · have visit := visits_expression context
        ((walk.returns context line).report line .initializerReturnsValue) scopes
        (opens.returns context line) value
      exact visit.after_quiet (quiet.trans (quiet_report _ _ _))
    · have visit := visits_expression context (walk.returns context line) scopes
        (opens.returns context line) value
      exact visit.after_quiet quiet
  | .classDecl name none methods classMethods => by
    simp only [statement, Stmt.occurrences, Stmt.passages, Stmt.locals]
    have declared := opens.declare (.named name) true false rfl
    have inClass := visits_methods ⟨context.function, .plain, true⟩ _ _ declared classMethods
    have opened := inClass.opens.openImplicit .this name.line rfl
    have inInstance := visits_methods ⟨context.function, .plain, false⟩ _ _ opened methods
    exact (inClass.trans (inInstance.closeScope.after_quiet (quiet_openImplicit _ _ _))).after_quiet
      (quiet_declare name true false walk)
  | .classDecl name (some target) methods classMethods => by
    simp only [statement, Stmt.occurrences, Stmt.passages, Stmt.locals]
    have declared := opens.declare (.named name) true false rfl
    have first := visits_superclass declared name target
    have extending := first.opens.openImplicit .super name.line rfl
    have inClass := visits_methods ⟨context.function, .subclass, true⟩ _ _ extending classMethods
    have opened := inClass.opens.openImplicit .this name.line rfl
    have inInstance := visits_methods ⟨context.function, .subclass, false⟩ _ _ opened methods
    have members := (inClass.trans
      (inInstance.closeScope.after_quiet (quiet_openImplicit _ _ _))).closeScope
    have visit := (first.trans (members.after_quiet (quiet_openImplicit _ _ _))).after_quiet
      (quiet_declare name true false walk)
    simpa [Context.surroundings, Scopes.ofClass] using visit

theorem visits_statements (context : Context) (walk : Walk) (scopes : Scopes)
    (opens : walk.Opens scopes) : ∀ statements : List Stmt,
      Visits walk (walk.statements context statements)
        (scopes.declare (Stmt.localsAll statements))
        (Stmt.occurrencesAll context.surroundings scopes statements)
        (Stmt.passagesAll context walk statements)
  | [] => by
    simp only [statements, Stmt.occurrencesAll, Stmt.passagesAll]
    rw [Stmt.localsAll, List.flatMap_nil, Scopes.declare_nil]
    exact .none opens (.refl walk)
  | first :: others => by
    simp only [statements, Stmt.occurrencesAll, Stmt.passagesAll]
    have visit := visits_statement context walk scopes opens first
    have next := visits_statements context _ _ visit.opens others
    rw [Scopes.declare_declare] at next
    exact visit.trans next

end

end Walk

/-- The walk through a program passes the uses in it, and records those that mean locals. -/
theorem visits_program (program : List Stmt) :
    Walk.Visits .start (Walk.start.statements .program program)
      (Scopes.declare (Stmt.localsAll program) []) (Program.occurrences program)
      (Program.passages program) :=
  Walk.visits_statements .program .start [] .nil program

end Lox
