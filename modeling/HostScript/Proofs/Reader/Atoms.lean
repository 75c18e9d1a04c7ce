import HostScript.Proofs.Reader.Roundtrip

/-!
# Reading a part of a script again

Any part of a script, written for itself, is read as one form: the one that `Expr.reread` says
(`readForms_render`). It comes back as it was exactly if it is lossless (`Expr.reread_eq_self_iff`).
So integers, symbols and finite decimals always come back, and a text does unless one of its
characters is unprintable: the escape that is written for such a character is none that is read, and
leaves longer text behind.
-/

namespace HostScript

/-! ## What comes back as it was -/

namespace Text

theorem length_rereadChar_of_isUnprintable {c : Char} (h : isUnprintable c = true) :
    1 < (rereadChar c).length := by
  rw [rereadChar, if_pos h]
  simp only [List.length_append, List.length_cons, List.length_nil]
  omega

/-- No character is lost. -/
theorem length_le_length_reread (cs : List Char) : cs.length ≤ (reread cs).length := by
  induction cs with
  | nil => exact Nat.le_refl 0
  | cons c cs ih =>
    have hc : 1 ≤ (rereadChar c).length := by
      by_cases h : isUnprintable c = true
      · exact Nat.le_of_lt (length_rereadChar_of_isUnprintable h)
      · simp [rereadChar, h]
    rw [reread, List.flatMap_cons, ← reread, List.length_append, List.length_cons]
    omega

/-- **A text comes back as it was exactly if all of its characters are printable.** -/
theorem reread_eq_self_iff {cs : List Char} :
    reread cs = cs ↔ ∀ c ∈ cs, isUnprintable c = false := by
  refine ⟨fun h => ?_, reread_eq_self⟩
  induction cs with
  | nil => simp
  | cons c cs ih =>
    rw [reread, List.flatMap_cons, ← reread] at h
    have hc : isUnprintable c = false := by
      by_contra hu
      -- More is read for the character than it alone, and no less for the others.
      have hlong := length_rereadChar_of_isUnprintable (by simpa using hu)
      have hrest := length_le_length_reread cs
      have hlength := congrArg List.length h
      rw [List.length_append, List.length_cons] at hlength
      omega
    have hrest : reread cs = cs := by
      simpa [rereadChar, hc] using h
    exact List.forall_mem_cons.mpr ⟨hc, ih hrest⟩

end Text

namespace Expr

/-- **An expression comes back as it was exactly if it is lossless.** -/
theorem reread_eq_self_iff {e : Expr} : e.reread = e ↔ e.Lossless := by
  refine ⟨fun h => ?_, reread_eq_self⟩
  induction e with
  | int value => exact .int value
  | dec value =>
    refine .dec fun negative hvalue => ?_
    rw [hvalue, reread] at h
    cases h
  | symbol name => exact .symbol name
  | text content =>
    rw [reread] at h
    have hcontent : Text.reread content.toList = content.toList := by
      rw [← String.toList_ofList (l := Text.reread content.toList), Expr.text.inj h]
    exact .text (Text.reread_eq_self_iff.mp hcontent)
  | list items ih =>
    have hne : items ≠ [] := by
      intro hnil
      rw [hnil, reread] at h
      cases h
    rw [reread_list hne] at h
    have hitems : items.map reread = items.map id := by
      rw [List.map_id]
      exact Expr.list.inj h
    exact .list hne fun e he => ih e he (List.map_inj_left.mp hitems e he)

/-! ## Parts -/

/-- The expression is `whole` or stands somewhere in it. -/
inductive OccursIn (e : Expr) : Expr → Prop
  | self : OccursIn e e
  | item {f : Expr} {items : List Expr} : f ∈ items → OccursIn e f → OccursIn e (.list items)

theorem OccursIn.nesting_le {e whole : Expr} (h : e.OccursIn whole) :
    e.nesting ≤ whole.nesting := by
  induction h with
  | self => exact Nat.le_refl _
  | item hf _ ih => exact Nat.le_of_lt (Nat.lt_of_le_of_lt ih (nesting_lt_of_mem hf))

end Expr

namespace Reader

open HostScript.Expr

theorem Readable.items {items : List Expr} (h : Readable (.list items)) :
    ∀ e ∈ items, Readable e := by
  generalize hlist : Expr.list items = whole at h
  cases h with
  | word w =>
    rcases atom_cases w.chars with ⟨value, hatom⟩ | ⟨value, -, hatom⟩ | hatom <;>
      (rw [hatom] at hlist; cases hlist)
  | text content => cases hlist
  | list hitems =>
    obtain rfl := Expr.list.inj hlist
    exact hitems

theorem Readable.of_occursIn {e whole : Expr} (h : Readable whole) (he : e.OccursIn whole) :
    Readable e := by
  induction he with
  | self => exact h
  | item hf _ ih => exact ih (h.items _ hf)

/-- What can be read and is not nested too deep is read again as `reread` says. -/
theorem readForms_render {e : Expr} (h : Readable e) (hn : e.nesting ≤ depthLimit) :
    readForms e.render = .ok [e.reread] := by
  have hreads : Reads (script [e]).toList [e.reread] :=
    reads_script fun f hf => List.mem_singleton.mp hf ▸ h
  have hscript : script [e] = e.render := by
    simp [script]
  rw [hscript] at hreads
  refine readForms_eq_ok_iff.mpr ⟨hreads, fun f hf => ?_⟩
  rw [List.mem_singleton.mp hf]
  exact Nat.le_trans (nesting_reread_le e) hn

/-- **Every part of a script is read again from how it is written, as `reread` says, and comes back
as it was exactly if it is lossless.** -/
theorem readForms_render_part {source : String} {forms : List Expr}
    (h : readForms source = .ok forms) {form e : Expr} (hform : form ∈ forms)
    (he : e.OccursIn form) :
    readForms e.render = .ok [e.reread] ∧ (readForms e.render = .ok [e] ↔ e.Lossless) := by
  obtain ⟨⟨ts, -, hforms⟩, hnesting⟩ := readForms_eq_ok_iff.mp h
  have hreadable : Readable e := (hforms.readable form hform).of_occursIn he
  have hagain : readForms e.render = .ok [e.reread] :=
    readForms_render hreadable (Nat.le_trans he.nesting_le (hnesting form hform))
  refine ⟨hagain, ?_⟩
  rw [hagain, ← Expr.reread_eq_self_iff]
  simp

/-- The text `"\n'"` in the script `(x "\n'")`. -/
theorem readForms_render_part_text :
    let source := String.ofList ['(', 'x', ' ', '"', '\\', 'n', '\'', '"', ')']
    let e := Expr.text (String.ofList ['\n', '\''])
    let form := Expr.list [.symbol "x", e]
    readForms source = .ok [form] ∧ e.OccursIn form ∧ e.Lossless ∧
      readForms e.render = .ok [e] := by
  intro source e form
  have hsource : readForms source = .ok [form] := by
    rw [readForms, String.toList_ofList]
    rfl
  have he : e.OccursIn form := .item (List.mem_cons_of_mem _ List.mem_cons_self) .self
  have hlossless : e.Lossless := by
    refine .text fun c hc => ?_
    simp only [String.toList_ofList, List.mem_cons, List.not_mem_nil, or_false] at hc
    rcases hc with rfl | rfl <;> decide
  exact ⟨hsource, he, hlossless,
    (readForms_render_part hsource List.mem_cons_self he).2.mpr hlossless⟩

/-- Two scripts whose forms do not come back: a text with the character U+0001, which is written as
an escape that stands for other characters, and the numeral `1e999`, which is infinite and is
written as the name of a symbol. -/
theorem readForms_render_lossy :
    let control := Expr.text (String.ofList ['\x01'])
    let infinity := Expr.dec (.infinite false)
    (readForms (String.ofList ['"', '\x01', '"']) = .ok [control] ∧
      control.render = String.ofList ['"', '\\', 'u', '\x7b', '1', '\x7d', '"'] ∧
      readForms control.render = .ok [.text (String.ofList ['u', '\x7b', '1', '\x7d'])] ∧
      readForms control.render ≠ .ok [control]) ∧
    (readForms (String.ofList ['1', 'e', '9', '9', '9']) = .ok [infinity] ∧
      infinity.render = "inf" ∧
      readForms infinity.render = .ok [.symbol "inf"] ∧
      readForms infinity.render ≠ .ok [infinity]) := by
  intro control infinity
  have hcontrol : control.render = String.ofList ['"', '\\', 'u', '\x7b', '1', '\x7d', '"'] := by
    simp only [control, render, chars, String.toList_ofList]
    rfl
  have hinfinity : infinity.render = String.ofList ['i', 'n', 'f'] := by
    simp only [infinity, render, chars]
    rfl
  have hreadControl : readForms control.render =
      .ok [.text (String.ofList ['u', '\x7b', '1', '\x7d'])] := by
    rw [hcontrol, readForms, String.toList_ofList]
    rfl
  have hreadInfinity : readForms infinity.render = .ok [.symbol (String.ofList ['i', 'n', 'f'])] := by
    rw [hinfinity, readForms, String.toList_ofList]
    rfl
  refine ⟨⟨?_, hcontrol, hreadControl, ?_⟩, ⟨?_, hinfinity, hreadInfinity, ?_⟩⟩
  · rw [readForms, String.toList_ofList]
    rfl
  · rw [hreadControl]
    simp [control]
  · rw [readForms, String.toList_ofList]
    rfl
  · rw [hreadInfinity]
    simp [infinity]

end Reader

end HostScript
