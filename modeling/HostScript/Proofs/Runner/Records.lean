import Mathlib.Data.List.SplitOn
import HostScript.Proofs.Evaluation.OneLine
import HostScript.Runner

/-!
# The lines of a run

The line of a form is three fields with a tab between them and a line feed after them. The number
of the form, the form and its result are all written unbroken, so nothing in them is taken for a
separator and the line gives the fields back (`isRecord_of_unbroken`).
-/

namespace HostScript.Runner

open Text

/-! ## Records -/

/-- The line is the three fields and nothing else, and can be taken for nothing else. -/
structure IsRecord (line number form result : String) : Prop where
  tabs : line.toList.count '\t' = 2
  terminators : line.toList.filter (· ∈ ['\n', '\r']) = ['\n']
  fields : ∃ body, line.toList = body ++ ['\n'] ∧
    body.splitOn '\t' = [number.toList, form.toList, result.toList]

theorem not_mem_of_unbroken {cs : List Char} (h : Unbroken cs) {c : Char}
    (hc : c ∈ ['\t', '\n', '\r']) : c ∉ cs := fun hmem => h c hmem hc

theorem count_tab_of_unbroken {cs : List Char} (h : Unbroken cs) : cs.count '\t' = 0 :=
  List.count_eq_zero.mpr (not_mem_of_unbroken h (by decide))

theorem terminators_of_unbroken {cs : List Char} (h : Unbroken cs) :
    cs.filter (· ∈ ['\n', '\r']) = [] := by
  rw [List.filter_eq_nil_iff]
  intro c hc hend
  exact h c hc (List.mem_cons_of_mem _ (of_decide_eq_true hend))

/-- **Fields that are written unbroken make a record.** -/
theorem isRecord_of_unbroken {number form result : String} (hnumber : Unbroken number.toList)
    (hform : Unbroken form.toList) (hresult : Unbroken result.toList) :
    IsRecord (number ++ "\t" ++ form ++ "\t" ++ result ++ "\n") number form result := by
  have hline : (number ++ "\t" ++ form ++ "\t" ++ result ++ "\n").toList =
      ['\t'].intercalate [number.toList, form.toList, result.toList] ++ ['\n'] := by
    simp [List.intercalate]
  refine ⟨?tabs, ?terminators, _, hline, ?fields⟩
  case tabs =>
    rw [hline]
    simp [List.intercalate, count_tab_of_unbroken hnumber, count_tab_of_unbroken hform,
      count_tab_of_unbroken hresult]
  case terminators =>
    have htab : ['\t'].filter (· ∈ ['\n', '\r']) = [] := by decide
    rw [hline]
    simp only [List.intercalate, List.intersperse, List.flatten_cons, List.flatten_nil,
      List.filter_append, htab, terminators_of_unbroken hnumber, terminators_of_unbroken hform,
      terminators_of_unbroken hresult]
    decide
  case fields =>
    refine List.splitOn_intercalate '\t' (fun field hfield => ?_) (List.cons_ne_nil _ _)
    simp only [List.mem_cons, List.not_mem_nil, or_false] at hfield
    rcases hfield with rfl | rfl | rfl
    · exact not_mem_of_unbroken hnumber (by decide)
    · exact not_mem_of_unbroken hform (by decide)
    · exact not_mem_of_unbroken hresult (by decide)

theorem unbroken_toString (index : Nat) : Unbroken (toString index).toList := by
  have hdigits : (toString index).toList = Integer.chars index := by
    rw [Nat.toString_eq_repr, Nat.repr, String.toList_ofList]
    rfl
  rw [hdigits]
  exact Integer.unbroken_chars index

/-- The line of the form is the record of its number, the form and its result. -/
def RecordedAt (index : Nat) (form : Expr) (result : Except Signal Value) : Prop :=
  IsRecord (line index form result) (toString index) form.render
    (renderResult (result.mapError Signal.condition))

theorem recordedAt_of_unbroken {form : Expr} {result : Except Signal Value} (index : Nat)
    (hform : Unbroken form.chars)
    (hresult : Unbroken (renderResult (result.mapError Signal.condition)).toList) :
    RecordedAt index form result :=
  isRecord_of_unbroken (unbroken_toString index) (Expr.unbroken_render.mpr hform) hresult

theorem unbroken_of_readForms {source : String} {forms : List Expr}
    (h : readForms source = .ok forms) : ∀ e ∈ forms, Unbroken e.chars := by
  obtain ⟨⟨ts, -, hts⟩, -⟩ := Reader.readForms_eq_ok_iff.mp h
  exact fun e he => (hts.readable e he).unbroken

end HostScript.Runner
