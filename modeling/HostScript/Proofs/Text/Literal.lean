import HostScript.Text.Quoted

/-!
# Text literals

What may stand between the double quotes of a literal and what it is the literal of. `Escape` lists
the escapes one by one; `escape_iff` says that `unescape` reads exactly these.

A text as it is written is a literal (`literal_escape`), though not always of itself: `reread` says
of what. An unprintable character is written as the number of its code point, and no escape reads
such a number.
-/

namespace HostScript.Text

/-- What a backslash and one more character stand for. A backslash at the end of a line stands for
nothing, and before any character without a meaning of its own for that character. -/
inductive Escape : Char → List Char → Prop
  | lineFeed : Escape 'n' ['\n']
  | carriageReturn : Escape 'r' ['\r']
  | tab : Escape 't' ['\t']
  | nul : Escape '0' ['\x00']
  | esc : Escape 'e' ['\x1b']
  | lineEnd : Escape '\n' []
  | self {c : Char} : c ∉ ['n', 'r', 't', '0', 'e', '\n'] → Escape c [c]

/-- `Literal body content` says that `body` between double quotes is a literal of `content`: no
double quote stands in it without a backslash, and each backslash opens an escape. -/
inductive Literal : List Char → List Char → Prop
  | nil : Literal [] []
  | plain {c : Char} {body content : List Char} :
    c ≠ '"' → c ≠ '\\' → Literal body content → Literal (c :: body) (c :: content)
  | escape {c : Char} {meant body content : List Char} :
    Escape c meant → Literal body content → Literal ('\\' :: c :: body) (meant ++ content)

theorem escape_unescape (c : Char) : Escape c (unescape c) := by
  unfold unescape
  split
  · next h => subst h; exact .lineFeed
  split
  · next h => subst h; exact .carriageReturn
  split
  · next h => subst h; exact .tab
  split
  · next h => subst h; exact .nul
  split
  · next h => subst h; exact .esc
  split
  · next h => subst h; exact .lineEnd
  · exact .self (by simp [*])

theorem Escape.eq_unescape {c : Char} {meant : List Char} (h : Escape c meant) :
    meant = unescape c := by
  cases h with
  | self hc =>
    simp only [List.mem_cons, List.not_mem_nil, or_false, not_or] at hc
    simp [unescape, hc]
  | _ => rfl

/-- **`unescape` reads the escapes as they are listed.** -/
theorem escape_iff {c : Char} {meant : List Char} : Escape c meant ↔ meant = unescape c :=
  ⟨Escape.eq_unescape, fun h => h ▸ escape_unescape c⟩

/-- An escape stands for one character at most. -/
theorem unescape_reverse (c : Char) : (unescape c).reverse = unescape c := by
  unfold unescape
  repeat' split
  all_goals rfl

/-- **Every text has a literal.** -/
theorem exists_literal (cs : List Char) : ∃ body, Literal body cs := by
  induction cs with
  | nil => exact ⟨[], .nil⟩
  | cons c cs ih =>
    obtain ⟨body, hbody⟩ := ih
    by_cases hc : c ∈ ['"', '\\']
    · have hself : c ∉ ['n', 'r', 't', '0', 'e', '\n'] := by
        simp only [List.mem_cons, List.not_mem_nil, or_false] at hc
        rcases hc with rfl | rfl <;> decide
      exact ⟨_, .escape (.self hself) hbody⟩
    · simp only [List.mem_cons, List.not_mem_nil, or_false, not_or] at hc
      exact ⟨_, .plain hc.1 hc.2 hbody⟩

/-! ## Written texts -/

/-- What is read for a character as it is written: an unprintable one leaves the escape that was
written for it, less the backslash. -/
def rereadChar (c : Char) : List Char :=
  if isUnprintable c then ['u', '\x7b'] ++ Nat.toDigits 16 c.toNat ++ ['\x7d'] else [c]

/-- What is read for a text as it is written. -/
def reread (cs : List Char) : List Char := cs.flatMap rereadChar

theorem reread_eq_self {cs : List Char} (h : ∀ c ∈ cs, isUnprintable c = false) :
    reread cs = cs := by
  induction cs with
  | nil => rfl
  | cons c cs ih =>
    have hc : rereadChar c = [c] := by simp [rereadChar, h c List.mem_cons_self]
    rw [reread, List.flatMap_cons, hc, ← reread,
      ih fun d hd => h d (List.mem_cons_of_mem c hd)]
    rfl

/-- The characters that have an escape of their own are printable. -/
theorem isUnprintable_of_mem_escaped : ∀ c ∈ ['\x00', '\t', '\r', '\n', '"', '\\'],
    isUnprintable c = false := by
  have hall : ['\x00', '\t', '\r', '\n', '"', '\\'].all (!isUnprintable ·) = true := by
    decide +kernel
  intro c hc
  simpa using List.all_eq_true.mp hall c hc

theorem exists_digitChar_of_mem_toDigits (n : Nat) :
    ∀ c ∈ Nat.toDigits 16 n, ∃ k < 16, c = Nat.digitChar k := by
  induction n using Nat.strongRecOn with
  | _ n ih =>
    intro c hc
    rw [Nat.toDigits_eq_if (by decide)] at hc
    split at hc
    · next h => exact ⟨n, h, List.mem_singleton.mp hc⟩
    · next h =>
      rcases List.mem_append.mp hc with hc | hc
      · exact ih (n / 16) (Nat.div_lt_self (by omega) (by decide)) c hc
      · exact ⟨n % 16, Nat.mod_lt n (by decide), List.mem_singleton.mp hc⟩

/-- No digit ends a literal or opens an escape. -/
theorem ne_of_mem_toDigits {n : Nat} {c : Char} (h : c ∈ Nat.toDigits 16 n) :
    c ≠ '"' ∧ c ≠ '\\' := by
  obtain ⟨k, hk, rfl⟩ := exists_digitChar_of_mem_toDigits n c h
  have hall : ∀ k : Fin 16, Nat.digitChar k ≠ '"' ∧ Nat.digitChar k ≠ '\\' := by decide
  exact hall ⟨k, hk⟩

theorem Literal.plainChars {cs body content : List Char}
    (hcs : ∀ c ∈ cs, c ≠ '"' ∧ c ≠ '\\') (h : Literal body content) :
    Literal (cs ++ body) (cs ++ content) := by
  induction cs with
  | nil => exact h
  | cons c cs ih =>
    obtain ⟨hq, hb⟩ := hcs c List.mem_cons_self
    exact .plain hq hb (ih fun d hd => hcs d (List.mem_cons_of_mem c hd))

/-- A character is written as a literal of what is read for it. -/
theorem Literal.escapeChar (c : Char) {body content : List Char} (h : Literal body content) :
    Literal (Text.escape c ++ body) (rereadChar c ++ content) := by
  by_cases hmem : c ∈ ['\x00', '\t', '\r', '\n', '"', '\\']
  · rw [rereadChar, isUnprintable_of_mem_escaped c hmem]
    simp only [List.mem_cons, List.not_mem_nil, or_false] at hmem
    rcases hmem with rfl | rfl | rfl | rfl | rfl | rfl
    · exact .escape .nul h
    · exact .escape .tab h
    · exact .escape .carriageReturn h
    · exact .escape .lineFeed h
    · exact .escape (.self (by decide)) h
    · exact .escape (.self (by decide)) h
  · simp only [List.mem_cons, List.not_mem_nil, or_false, not_or] at hmem
    by_cases hu : isUnprintable c = true
    · simp only [Text.escape, rereadChar, hmem, hu, if_true, if_false, List.append_assoc]
      show Literal ('\\' :: 'u' :: '\x7b' :: (Nat.toDigits 16 c.toNat ++ '\x7d' :: body))
        (['u'] ++ '\x7b' :: (Nat.toDigits 16 c.toNat ++ '\x7d' :: content))
      refine .escape (.self (by decide)) (.plain (by decide) (by decide) ?_)
      exact .plainChars (fun d hd => ne_of_mem_toDigits hd) (.plain (by decide) (by decide) h)
    · simp only [Text.escape, rereadChar, hmem, hu, if_false]
      exact .plain hmem.2.2.2.2.1 hmem.2.2.2.2.2 h

/-- **A text between quotes as it is written is a literal of what `reread` says.** -/
theorem literal_escape (cs : List Char) : Literal (cs.flatMap Text.escape) (reread cs) := by
  induction cs with
  | nil => exact .nil
  | cons c cs ih => exact .escapeChar c ih

end HostScript.Text
