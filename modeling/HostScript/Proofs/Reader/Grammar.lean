import HostScript.Proofs.Reader.Denotation
import HostScript.Proofs.Text.Literal

/-!
# The grammar of scripts

A script is a sequence of tokens with separators between them (`Lexes`), and its forms are trees
over the tokens (`Form`). Neither says how a script is read.

* A separator is a blank or a comment, which runs up to the end of its line or of the script.
* A token is a parenthesis, a quote mark, a text literal, or a word: a run of plain characters that
  no plain character follows.
* A form is a word, a text, a list of forms in parentheses, or a form after a quote mark. The tree
  of a word is what it stands for (`Denotes`).
-/

namespace HostScript.Reader

/-- A character that words are made of. -/
def IsPlain (c : Char) : Prop := Text.isBlank c = false ∧ c ∉ ['(', ')', '\'', '"', ';']

instance (c : Char) : Decidable (IsPlain c) := inferInstanceAs (Decidable (_ ∧ _))

theorem isPlain_iff {c : Char} : IsPlain c ↔ isDelimiter c = false := by
  simp [IsPlain, isDelimiter, isMark, and_assoc]

theorem forall_isPlain {cs : List Char} (h : cs.all (!isDelimiter ·) = true) :
    ∀ c ∈ cs, IsPlain c := by
  intro c hc
  rw [isPlain_iff]
  simpa using List.all_eq_true.mp h c hc

/-- A run of plain characters. -/
structure Word where
  chars : List Char
  ne_nil : chars ≠ []
  plain : ∀ c ∈ chars, IsPlain c

theorem Word.length_pos (w : Word) : 0 < w.chars.length := List.length_pos_iff.mpr w.ne_nil

/-- No word goes on into the text. -/
def EndsWord (cs : List Char) : Prop := ∀ c, cs.head? = some c → ¬ IsPlain c

inductive Token where
  | openList
  | closeList
  | quoteMark
  | text (content : List Char)
  | word (word : Word)

/-- `Lexes cs ts` says that `cs` is made up of the tokens `ts` and separators. -/
inductive Lexes : List Char → List Token → Prop
  | nil : Lexes [] []
  | blank {c : Char} {cs : List Char} {ts : List Token} :
    Text.isBlank c = true → Lexes cs ts → Lexes (c :: cs) ts
  | comment {body cs : List Char} {ts : List Token} :
    '\n' ∉ body → Lexes cs ts → Lexes (';' :: body ++ '\n' :: cs) ts
  | lastComment {body : List Char} : '\n' ∉ body → Lexes (';' :: body) []
  | openList {cs : List Char} {ts : List Token} :
    Lexes cs ts → Lexes ('(' :: cs) (.openList :: ts)
  | closeList {cs : List Char} {ts : List Token} :
    Lexes cs ts → Lexes (')' :: cs) (.closeList :: ts)
  | quoteMark {cs : List Char} {ts : List Token} :
    Lexes cs ts → Lexes ('\'' :: cs) (.quoteMark :: ts)
  | text {body content cs : List Char} {ts : List Token} :
    Text.Literal body content → Lexes cs ts → Lexes ('"' :: body ++ '"' :: cs) (.text content :: ts)
  | word {cs : List Char} {ts : List Token} (w : Word) :
    EndsWord cs → Lexes cs ts → Lexes (w.chars ++ cs) (.word w :: ts)

mutual

/-- `Form ts e` says that the tokens `ts` are one form, with the tree `e`. -/
inductive Form : List Token → Expr → Prop
  | word (w : Word) {e : Expr} : Denotes w.chars e → Form [.word w] e
  | text (content : List Char) : Form [.text content] (.text (String.ofList content))
  | list {ts : List Token} {items : List Expr} :
    Forms ts items → Form (.openList :: ts ++ [.closeList]) (.list items)
  | quotation {ts : List Token} {e : Expr} :
    Form ts e → Form (.quoteMark :: ts) (.list [.symbol "quote", e])

/-- `Forms ts es` says that the tokens `ts` are a sequence of forms, with the trees `es`. -/
inductive Forms : List Token → List Expr → Prop
  | nil : Forms [] []
  | cons {ts us : List Token} {e : Expr} {es : List Expr} :
    Form ts e → Forms us es → Forms (ts ++ us) (e :: es)

end

/-- `Reads cs forms` says that the grammar gives the script `cs` the trees `forms`. -/
def Reads (cs : List Char) (forms : List Expr) : Prop := ∃ ts, Lexes cs ts ∧ Forms ts forms

/-- A word is a form, with the tree that the reader gives it. -/
theorem Form.atom (w : Word) : Form [.word w] (Reader.atom w.chars) := .word w (denotes_atom _)

theorem Forms.singleton {ts : List Token} {e : Expr} (h : Form ts e) : Forms ts [e] := by
  simpa using Forms.cons h .nil

theorem Forms.append : ∀ {ts us : List Token} {ds es : List Expr},
    Forms ts ds → Forms us es → Forms (ts ++ us) (ds ++ es)
  | _, _, _, _, .nil, h => h
  | _, _, _, _, .cons hd hds, h => by
    rw [List.append_assoc, List.cons_append]
    exact .cons hd (hds.append h)

end HostScript.Reader
