import Mathlib
import Lox.Proofs.Session.Journal

/-!
# Variables without a value

When a program fails with `Uninitialised variable`, the journal says why the variable has no
value.  A local variable is one of a `var` then, which has no initial value or whose initial value
was not evaluated to its end; parameters, functions, classes, `this` and `super` always have one.
-/

namespace Lox

open Noted (Note IsWithoutValue)

/--
Whatever source texts a session has run: if another one fails since a variable has no value, then
the last thing that happened is that it was read, but for the initial values that this cut short.
If it is not a global variable, then its slot was declared by a `var` and by nothing else, and
since then nothing gave it a value: the `var` has no initial value; or this was still being
evaluated, and the read is in a function that was entered meanwhile; or its evaluation was cut
short, by this text or one before, and the read is in a function that was entered afterwards.
-/
theorem uninitialised_explained {clock : Float} {inputs : List Input} {reports : List Report}
    {session : Session} (answered : (Session.start clock).answer inputs = some (reports, session))
    {fuel : Nat} {text : String} {printed : List String} {line : Nat} {name : String}
    {after : Session} (failed : session.run fuel text =
      some (⟨printed, .failed ⟨line, .uninitialisedVariable name⟩⟩, after)) :
    let before := (Session.start clock).answerNoted inputs []
    let noted := session.runNoted fuel text before.2
    before.1 = some (reports, session) ∧
      noted.1 = some (⟨printed, .failed ⟨line, .uninitialisedVariable name⟩⟩, after) ∧
      ∃ past miss cuts, noted.2 = past ++ miss :: cuts ∧
        (∀ cut ∈ cuts, ∃ frame slot, cut = .abandons frame slot) ∧
        (miss = .missesGlobal name ∨ ∃ frame slot entered, miss = .misses frame slot entered ∧
          IsWithoutValue past frame slot entered ∧
          ∀ declarer, .declares declarer frame slot ∈ past →
            ∃ hasInitial, declarer = .varDecl hasInitial) := by
  have ends := Session.answerNoted_endsRight clock inputs
  rcases ends.remembers reports session answered with ⟨programs, events, remembers⟩
  have ran := remembers.run fuel text
  refine ⟨ends.same.trans answered, ran.same.trans failed, ?_⟩
  rcases remembers.run_explains failed line name rfl with ⟨past, miss, cuts, same, isMiss, areCuts⟩
  refine ⟨past, miss, cuts, same, areCuts, ?_⟩
  have right := ran.right past miss cuts same
  cases miss with
  | misses frame slot entered => exact .inr ⟨frame, slot, entered, rfl, right⟩
  | missesGlobal other => exact .inl (congrArg Note.missesGlobal isMiss)
  | _ => cases isMiss

/-- A text that keeps a function from an initial value, which is cut short then. -/
def keepsUnfinished : String :=
  "var kept; fun keep(f) { kept = f; f.x; } { var a = keep(fun () { return a; }); print a; }"

/-- The function is called by a later text, and reads the variable, whose value was cut short. -/
theorem uninitialised_explained_keepsUnfinished :
    ∃ session after, (Session.start 0).answer [.source 30 keepsUnfinished] =
        some ([⟨[], .failed ⟨1, .hasNoProperties⟩⟩], session) ∧
      session.run 30 "kept();" =
        some (⟨[], .failed ⟨1, .uninitialisedVariable "a"⟩⟩, after) ∧
      ∃ past, (session.runNoted 30 "kept();"
          ((Session.start 0).answerNoted [.source 30 keepsUnfinished] []).2).2 =
            past ++ [.misses 1 0 (some 4)] ∧
        IsWithoutValue past 1 0 (some 4) := by
  have runs : ((Session.start 0).answer [.source 30 keepsUnfinished]).bind (fun answered =>
      (answered.2.run 30 "kept();").map fun ran => (answered.1, ran.1,
        (answered.2.runNoted 30 "kept();"
          ((Session.start 0).answerNoted [.source 30 keepsUnfinished] []).2).2.getLast?)) =
      some ([⟨[], .failed ⟨1, .hasNoProperties⟩⟩],
        ⟨[], .failed ⟨1, .uninitialisedVariable "a"⟩⟩, some (.misses 1 0 (some 4))) := by
    cbv
  rcases Option.bind_eq_some_iff.mp runs with ⟨⟨reports, session⟩, answered, ran⟩
  rcases Option.map_eq_some_iff.mp ran with ⟨⟨report, after⟩, failed, same⟩
  simp only [Prod.mk.injEq] at same
  rcases same with ⟨rfl, rfl, last⟩
  rcases uninitialised_explained answered failed with ⟨-, -, past, miss, cuts, split, areCuts, why⟩
  refine ⟨session, after, answered, failed, past, ?_⟩
  rw [split] at last ⊢
  rcases List.eq_nil_or_concat cuts with rfl | ⟨others, cut, rfl⟩
  · rw [List.getLast?_concat, Option.some.injEq] at last
    subst last
    rcases why with impossible | ⟨frame, slot, entered, same, unset, -⟩
    · cases impossible
    · cases same
      exact ⟨rfl, unset⟩
  · rw [List.concat_eq_append, ← List.cons_append, ← List.append_assoc, List.getLast?_concat,
      Option.some.injEq] at last
    rcases areCuts cut (by simp) with ⟨frame, slot, isCut⟩
    cases last.symm.trans isCut

end Lox
