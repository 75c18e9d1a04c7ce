import HostScript.Proofs.Number.Nearest
import HostScript.Proofs.Number.Spelling
import HostScript.Reader.Atom

/-!
# What words stand for

A word stands for what it spells (`Denotes`): an integer, if it spells one that fits 64 bits, else
the decimal that it spells, correctly rounded, else the symbol with its text for a name. This says
nothing of how words are read. The reader finds what a word stands for (`denotes_atom`), and a word
stands for nothing else (`Denotes.atom_eq`).
-/

namespace HostScript.Reader

/-- `Denotes cs e` says that the word `cs` stands for `e`. -/
inductive Denotes (cs : List Char) : Expr → Prop
  | int {value : Int64} : Integer.Spells cs value.toInt → Denotes cs (.int value)
  | dec {d : Decimal} {x : Binary64} :
    (∀ value : Int64, ¬ Integer.Spells cs value.toInt) → Decimal.Spells cs d → d.RoundsTo x →
    Denotes cs (.dec x)
  | symbol :
    (∀ value : Int64, ¬ Integer.Spells cs value.toInt) → (∀ d, ¬ Decimal.Spells cs d) →
    Denotes cs (.symbol (String.ofList cs))

theorem decimal?_eq_some_iff {cs : List Char} {x : Binary64} :
    decimal? cs = some x ↔ ∃ d, Decimal.Spells cs d ∧ d.RoundsTo x := by
  simp only [decimal?_eq, Option.map_eq_some_iff, Decimal.ofChars?_eq_some_iff,
    Binary64.ofDecimal_eq_iff_roundsTo]

theorem decimal?_eq_none_iff {cs : List Char} :
    decimal? cs = none ↔ ∀ d, ¬ Decimal.Spells cs d := by
  rw [decimal?_eq, Option.map_eq_none_iff, Option.eq_none_iff_forall_ne_some]
  simp only [ne_eq, Decimal.ofChars?_eq_some_iff]

theorem denotes_atom (cs : List Char) : Denotes cs (atom cs) := by
  unfold atom
  split
  · next hint => exact .int (Integer.int64?_eq_some_iff.mp hint)
  · next hint =>
    have hint := Integer.int64?_eq_none_iff.mp hint
    split
    · next hdec =>
      obtain ⟨d, hd, hx⟩ := decimal?_eq_some_iff.mp hdec
      exact .dec hint hd hx
    · next hdec => exact .symbol hint (decimal?_eq_none_iff.mp hdec)

/-- A word stands for one form, which is the one that is read. -/
theorem Denotes.atom_eq {cs : List Char} {e : Expr} (h : Denotes cs e) : atom cs = e := by
  unfold atom
  rcases h with hint | ⟨hint, hd, hx⟩ | ⟨hint, hdec⟩
  · rw [Integer.int64?_eq_some_iff.mpr hint]
  · rw [Integer.int64?_eq_none_iff.mpr hint, decimal?_eq_some_iff.mpr ⟨_, hd, hx⟩]
  · rw [Integer.int64?_eq_none_iff.mpr hint, decimal?_eq_none_iff.mpr hdec]

end HostScript.Reader
