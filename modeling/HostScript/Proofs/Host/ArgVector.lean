import HostScript.Host.ArgVector
import HostScript.Proofs.Text.Utf8

/-!
# Making argument vectors

Words without the NUL character make up an argument vector, and it has just these words. Whether
they do does not depend on the index from which the words are counted.

Other words are refused for the first of them that holds a NUL (`ofList?_eq_error_iff`), with the
place of the first zero byte in its encoding (`nulPosition?_toList`).
-/

namespace HostScript

open Text.Utf8 (encode decodeLossy decodeLossy_encode encode_eq_flatMap zero_mem_encodeChar_iff)

/-- **The first NUL of a word is the first zero byte of its encoding.** -/
theorem nulPosition?_toList (word : String) :
    nulPosition? word.toList = (encode word).idxOf? 0 := by
  have hchars : ∀ cs : List Char,
      nulPosition? cs = (cs.flatMap String.utf8EncodeChar).idxOf? 0 := by
    intro cs
    induction cs with
    | nil => rfl
    | cons c cs ih =>
      rw [nulPosition?, List.flatMap_cons]
      split
      · next hc =>
        subst hc
        rfl
      · next hc =>
        have hnone : (String.utf8EncodeChar c).findIdx? (· == 0) = none :=
          List.idxOf?_eq_none_iff.mpr (mt zero_mem_encodeChar_iff.mp hc)
        show _ = List.findIdx? (· == 0) _
        rw [List.findIdx?_append, hnone, Option.none_or, String.length_utf8EncodeChar, ih]
        simp only [Nat.add_comm c.utf8Size]
        rfl
  rw [hchars, encode_eq_flatMap]

namespace ArgVector

/-- The argument vector of some words has these words. -/
theorem words_of_ofListFrom {index : Nat} {words : List String} {argv : ArgVector}
    (h : ofListFrom index words = .ok argv) : argv.words = words := by
  induction words generalizing index argv with
  | nil =>
    rw [ofListFrom] at h
    obtain rfl := Except.ok.inj h
    rfl
  | cons w rest ih =>
    unfold ofListFrom at h
    split at h
    · cases h
    · split at h
      · cases h
      · next tail hrest =>
        obtain rfl := Except.ok.inj h
        exact congrArg (w :: ·) (ih hrest)

theorem exists_ofListFrom {words : List String} (h : ∀ w ∈ words, '\x00' ∉ w.toList)
    (index : Nat) : ∃ argv, ofListFrom index words = .ok argv := by
  induction words generalizing index with
  | nil => exact ⟨_, by rw [ofListFrom]⟩
  | cons w rest ih =>
    obtain ⟨tail, hrest⟩ := ih (fun v hv => h v (List.mem_cons_of_mem w hv)) (index + 1)
    have hw : nulPosition? w.toList = none :=
      nulPosition?_eq_none_iff.mpr (h w List.mem_cons_self)
    unfold ofListFrom
    split
    · next position hposition =>
      rw [hw] at hposition
      cases hposition
    · rw [hrest]
      exact ⟨_, rfl⟩

/-- **Words make up an argument vector just if none of them holds a NUL.** -/
theorem exists_ofList?_iff {words : List String} :
    (∃ argv, ofList? words = .ok argv) ↔ ∀ w ∈ words, '\x00' ∉ w.toList := by
  constructor
  · rintro ⟨argv, h⟩
    rw [← words_of_ofListFrom h]
    exact argv.noNul
  · intro h
    exact exists_ofListFrom h 0

theorem words_of_ofList? {words : List String} {argv : ArgVector} (h : ofList? words = .ok argv) :
    argv.words = words := words_of_ofListFrom h

/-- An argument vector is made of its words and of no others. -/
theorem ofList?_eq_ok_iff {words : List String} {argv : ArgVector} :
    ofList? words = .ok argv ↔ argv.words = words := by
  constructor
  · exact words_of_ofList?
  · intro h
    obtain ⟨made, hmade⟩ := exists_ofListFrom (h ▸ argv.noNul) 0
    have hwords : made.words = argv.words := (words_of_ofListFrom hmade).trans h.symm
    obtain ⟨_, _⟩ := made
    obtain ⟨_, _⟩ := argv
    obtain rfl := hwords
    exact hmade

theorem ofListFrom_cons_of_nul {index position : Nat} {w : String}
    (h : nulPosition? w.toList = some position) (rest : List String) :
    ofListFrom index (w :: rest) = .error ⟨index, position⟩ := by
  unfold ofListFrom
  split
  · next found hfound =>
    rw [h] at hfound
    rw [Option.some.inj hfound]
  · next hnone =>
    rw [h] at hnone
    cases hnone

theorem ofListFrom_cons_eq_error {index : Nat} {w : String} (h : '\x00' ∉ w.toList)
    {rest : List String} {fault : NulFault} (hrest : ofListFrom (index + 1) rest = .error fault) :
    ofListFrom index (w :: rest) = .error fault := by
  unfold ofListFrom
  split
  · next position hposition =>
    rw [nulPosition?_eq_none_iff.mpr h] at hposition
    cases hposition
  · rw [hrest]

/-- **The first word that holds a NUL is at fault, whatever comes after it.** -/
theorem ofListFrom_append {before : List String} (hbefore : ∀ v ∈ before, '\x00' ∉ v.toList)
    {w : String} {position : Nat} (hw : nulPosition? w.toList = some position)
    (after : List String) (index : Nat) :
    ofListFrom index (before ++ w :: after) = .error ⟨index + before.length, position⟩ := by
  induction before generalizing index with
  | nil => exact ofListFrom_cons_of_nul hw after
  | cons v before ih =>
    have hrest := ih (fun u hu => hbefore u (List.mem_cons_of_mem v hu)) (index + 1)
    rw [Nat.add_right_comm, Nat.add_assoc] at hrest
    exact ofListFrom_cons_eq_error (hbefore v List.mem_cons_self) hrest

/-- Among words with a NUL there is a first one that holds it. -/
theorem exists_first_nul {words : List String} (h : ¬ ∀ w ∈ words, '\x00' ∉ w.toList) :
    ∃ before w after, words = before ++ w :: after ∧ (∀ v ∈ before, '\x00' ∉ v.toList) ∧
      '\x00' ∈ w.toList := by
  cases hfind : words.find? (fun w => decide ('\x00' ∈ w.toList)) with
  | none =>
    refine absurd (fun w hw => ?_) h
    simpa using List.find?_eq_none.mp hfind w hw
  | some w =>
    obtain ⟨hw, before, after, rfl, hbefore⟩ := List.find?_eq_some_iff_append.mp hfind
    exact ⟨before, w, after, rfl, by simpa using hbefore, by simpa using hw⟩

/-- The byte of a fault: it is zero, and none before it is. -/
theorem nulPosition?_eq_some_iff {w : String} {position : Nat} :
    nulPosition? w.toList = some position ↔
      (encode w)[position]? = some 0 ∧ ∀ i < position, (encode w)[i]? ≠ some 0 := by
  rw [nulPosition?_toList, List.idxOf?_eq_some_iff]
  constructor
  · rintro ⟨hlength, hzero, hbefore⟩
    refine ⟨by rw [List.getElem?_eq_getElem hlength, hzero], fun i hi => ?_⟩
    rw [List.getElem?_eq_getElem (Nat.lt_trans hi hlength)]
    exact fun h => hbefore i hi (Option.some.inj h)
  · rintro ⟨hzero, hbefore⟩
    obtain ⟨hlength, hzero⟩ := List.getElem?_eq_some_iff.mp hzero
    refine ⟨hlength, hzero, fun i hi h => hbefore i hi ?_⟩
    rw [List.getElem?_eq_getElem (Nat.lt_trans hi hlength), h]

theorem ofList?_eq_error_iff {words : List String} {fault : NulFault} :
    ofList? words = .error fault ↔
      ∃ before w after, words = before ++ w :: after ∧ (∀ v ∈ before, '\x00' ∉ v.toList) ∧
        fault.index = before.length ∧ nulPosition? w.toList = some fault.position := by
  constructor
  · intro h
    have hnul : ¬ ∀ w ∈ words, '\x00' ∉ w.toList := by
      intro hall
      obtain ⟨argv, hargv⟩ := exists_ofListFrom hall 0
      rw [ofList?, hargv] at h
      cases h
    obtain ⟨before, w, after, rfl, hbefore, hw⟩ := exists_first_nul hnul
    obtain ⟨position, hposition⟩ : ∃ position, nulPosition? w.toList = some position :=
      Option.ne_none_iff_exists'.mp fun hnone => nulPosition?_eq_none_iff.mp hnone hw
    rw [ofList?, ofListFrom_append hbefore hposition] at h
    obtain rfl := Except.error.inj h
    exact ⟨before, w, after, rfl, hbefore, Nat.zero_add _, hposition⟩
  · rintro ⟨before, w, after, rfl, hbefore, hindex, hposition⟩
    rw [ofList?, ofListFrom_append hbefore hposition, Nat.zero_add, ← hindex]

/-- **Words make up an argument vector just if none of them holds a NUL. It has these words in their
order, the first one is the program, whose name is shown as it is given, and the others are its
arguments. Other words are refused for the first one that holds a NUL, whatever comes after it, with
the place of the first zero byte in its encoding.** -/
theorem ofList?_cases (words : List String) :
    ((∃ argv, ofList? words = .ok argv) ↔ ∀ w ∈ words, '\x00' ∉ w.toList) ∧
    (∀ argv, ofList? words = .ok argv ↔
      argv.words = words ∧ argv.program? = words.head? ∧ argv.arguments = words.tail ∧
        argv.size = words.length ∧ argv.isEmpty = words.isEmpty ∧
        argv.programName = words.head?.getD "" ∧
        argv.programName = (words.head?.map fun w => decodeLossy (encode w)).getD "") ∧
    ∀ fault, ofList? words = .error fault ↔
      ∃ before w after, words = before ++ w :: after ∧ (∀ v ∈ before, '\x00' ∉ v.toList) ∧
        '\x00' ∈ w.toList ∧ fault.index = before.length ∧
        (encode w)[fault.position]? = some 0 ∧
        ∀ i < fault.position, (encode w)[i]? ≠ some 0 := by
  refine ⟨exists_ofList?_iff, fun argv => ?_, fun fault => ?_⟩
  · rw [ofList?_eq_ok_iff]
    constructor
    · rintro rfl
      refine ⟨rfl, rfl, rfl, rfl, rfl, rfl, ?_⟩
      have hname : (fun w => decodeLossy (encode w)) = id := funext decodeLossy_encode
      rw [hname, Option.map_id]
      rfl
    · exact And.left
  · rw [ofList?_eq_error_iff]
    constructor
    · rintro ⟨before, w, after, hwords, hbefore, hindex, hposition⟩
      have hw : '\x00' ∈ w.toList := Decidable.byContradiction fun hw => by
        rw [nulPosition?_eq_none_iff.mpr hw] at hposition
        cases hposition
      exact ⟨before, w, after, hwords, hbefore, hw, hindex, nulPosition?_eq_some_iff.mp hposition⟩
    · rintro ⟨before, w, after, hwords, hbefore, -, hindex, hposition⟩
      exact ⟨before, w, after, hwords, hbefore, hindex, nulPosition?_eq_some_iff.mpr hposition⟩

end ArgVector

end HostScript
