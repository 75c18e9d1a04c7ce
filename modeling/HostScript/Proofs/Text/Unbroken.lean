import HostScript.Proofs.Reader.Roundtrip

/-!
# Text without breaks

A text is unbroken if it holds no tab, no line feed and no carriage return. Words hold none of them,
as all three are blanks, and numbers are written as words. A quoted text holds none either, whatever
the text is: each of the three has an escape of its own. So every form of a script is written
unbroken (`Reader.Readable.unbroken`).
-/

namespace HostScript

namespace Text

/-- The text holds no tab and no end of a line. -/
def Unbroken (cs : List Char) : Prop := ∀ c ∈ cs, c ∉ ['\t', '\n', '\r']

instance (cs : List Char) : Decidable (Unbroken cs) := List.decidableBAll _ cs

@[simp] theorem unbroken_nil : Unbroken [] := by
  simp [Unbroken]

@[simp] theorem unbroken_cons {c : Char} {cs : List Char} :
    Unbroken (c :: cs) ↔ c ∉ ['\t', '\n', '\r'] ∧ Unbroken cs := List.forall_mem_cons

@[simp] theorem unbroken_append {as bs : List Char} :
    Unbroken (as ++ bs) ↔ Unbroken as ∧ Unbroken bs := List.forall_mem_append

@[simp] theorem unbroken_flatMap {α : Type} {xs : List α} {f : α → List Char} :
    Unbroken (xs.flatMap f) ↔ ∀ x ∈ xs, Unbroken (f x) := by
  simp only [Unbroken, List.mem_flatMap]
  exact ⟨fun h x hx c hc => h c ⟨x, hx, hc⟩, fun h c ⟨x, hx, hc⟩ => h x hx c hc⟩

/-- What holds no blanks is unbroken. -/
theorem unbroken_of_isPlain {cs : List Char} (h : ∀ c ∈ cs, Reader.IsPlain c) : Unbroken cs := by
  intro c hc hbreak
  have hblank : ['\t', '\n', '\r'].all isBlank = true := by decide
  have hplain := (h c hc).1
  rw [List.all_eq_true.mp hblank c hbreak] at hplain
  cases hplain

theorem unbroken_toDigits (n : Nat) : Unbroken (Nat.toDigits 16 n) := by
  intro c hc
  obtain ⟨k, hk, rfl⟩ := exists_digitChar_of_mem_toDigits n c hc
  have hall : ∀ k : Fin 16, Nat.digitChar k ∉ ['\t', '\n', '\r'] := by decide
  exact hall ⟨k, hk⟩

/-- Every character is written unbroken between quotes. -/
theorem unbroken_escape (c : Char) : Unbroken (escape c) := by
  unfold escape
  split
  · decide
  split
  · decide
  split
  · decide
  split
  · decide
  split
  · decide
  split
  · decide
  split
  · rw [unbroken_append, unbroken_append]
    exact ⟨⟨by decide, unbroken_toDigits _⟩, by decide⟩
  · simp [*]

/-- **Every text is written unbroken between quotes.** -/
theorem unbroken_quote (cs : List Char) : Unbroken (quote cs) := by
  rw [quote, unbroken_append, unbroken_cons, unbroken_flatMap]
  exact ⟨⟨by decide, fun c _ => unbroken_escape c⟩, by decide⟩

end Text

/-! ## Expressions -/

open Text

theorem Integer.unbroken_chars (n : Int) : Unbroken (Integer.chars n) :=
  unbroken_of_isPlain fun _ => Reader.isPlain_of_mem_intChars

theorem Binary64.unbroken_chars (value : Binary64) : Unbroken value.chars :=
  unbroken_of_isPlain fun _ => Reader.isPlain_of_mem_decChars

namespace Expr

theorem unbroken_render {e : Expr} : Unbroken e.render.toList ↔ Unbroken e.chars := by
  rw [render, String.toList_ofList]

/-- **A list is written unbroken exactly if each of its items is.** -/
theorem unbroken_list_iff {items : List Expr} :
    Unbroken (chars (.list items)) ↔ ∀ e ∈ items, Unbroken e.chars := by
  cases items with
  | nil => simp [chars]
  | cons head tail =>
    rcases chars_list_cons head tail with ⟨operand, hpair, hchars⟩ | hchars
    · have hquote : Unbroken (chars (.symbol "quote")) := by
        rw [chars]
        decide
      rw [hchars, hpair]
      simp [hquote]
    · rw [hchars]
      simp

end Expr

/-- **What was read is written unbroken.** -/
theorem Reader.Readable.unbroken {e : Expr} (h : Readable e) : Unbroken e.chars := by
  induction h with
  | word w =>
    rcases atom_cases w.chars with ⟨value, hatom⟩ | ⟨value, -, hatom⟩ | hatom
    · rw [hatom, Expr.chars]
      exact Integer.unbroken_chars _
    · rw [hatom, Expr.chars]
      exact value.unbroken_chars
    · rw [hatom, Expr.chars, String.toList_ofList]
      exact unbroken_of_isPlain w.plain
  | text content =>
    rw [Expr.chars]
    exact unbroken_quote _
  | list _ ih => exact Expr.unbroken_list_iff.mpr ih

end HostScript
