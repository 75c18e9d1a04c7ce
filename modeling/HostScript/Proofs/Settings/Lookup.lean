import HostScript.Proofs.Number.Nearest
import HostScript.Proofs.Number.Spelling
import HostScript.Settings

/-!
# Settings from variables

What the texts of the variables mean for the settings, apart from how they are read: a depth limit
is a numeral for a positive integer of 64 bits (`IsMaxDepth`), a time scale a numeral that rounds to
a positive finite number (`IsTimeScale`), and strictness is one of a few words (`IsOneOf`). Blanks
around them do not count (`Text.Trimmed`).

Each setting has a variable of its own (`variables_nodup`). It is what the text of that variable
means, and what it is without any variables where there is no text or the text means nothing
(`Overlaid`). So it depends on no other variable, and is always valid (`ofLookup_overlaid`).
-/

namespace HostScript

/-! ## Trimming -/

namespace Text

/-- `Trimmed cs core` says that `cs` is `core` with blanks around it, and that `core` neither begins
nor ends with a blank. -/
inductive Trimmed : List Char → List Char → Prop
  | mk {before core after : List Char} :
    (∀ c ∈ before, isBlank c = true) → (∀ c ∈ after, isBlank c = true) →
    (∀ c, core.head? = some c → isBlank c = false) →
    (∀ c, core.getLast? = some c → isBlank c = false) →
    Trimmed (before ++ (core ++ after)) core

theorem not_isBlank_of_head?_dropWhile {cs : List Char} {c : Char}
    (h : (cs.dropWhile isBlank).head? = some c) : isBlank c = false := by
  have hhead := List.head?_dropWhile_not isBlank cs
  rw [h] at hhead
  exact hhead

theorem trimmed_trim (cs : List Char) : Trimmed cs (trim cs) := by
  generalize hafter : ((cs.dropWhile isBlank).reverse.takeWhile isBlank).reverse = after
  have hrest : trim cs ++ after = cs.dropWhile isBlank := by
    rw [← hafter, trim, ← List.reverse_append, List.takeWhile_append_dropWhile,
      List.reverse_reverse]
  have hcs : cs.takeWhile isBlank ++ (trim cs ++ after) = cs := by
    rw [hrest, List.takeWhile_append_dropWhile]
  have htrimmed : Trimmed (cs.takeWhile isBlank ++ (trim cs ++ after)) (trim cs) := by
    refine .mk (fun c => List.mem_takeWhile_imp) (fun c hc => ?_) (fun c hc => ?_) fun c hc => ?_
    · rw [← hafter, List.mem_reverse] at hc
      exact List.mem_takeWhile_imp hc
    · have hhead : (cs.dropWhile isBlank).head? = some c := by
        rw [← hrest, List.head?_append, hc, Option.some_or]
      exact not_isBlank_of_head?_dropWhile hhead
    · rw [trim, List.getLast?_reverse] at hc
      exact not_isBlank_of_head?_dropWhile hc
  rwa [hcs] at htrimmed

/-- **Trimming takes the blanks at both ends away and nothing else.** -/
theorem trim_eq_iff {cs core : List Char} : trim cs = core ↔ Trimmed cs core := by
  constructor
  · rintro rfl
    exact trimmed_trim cs
  · rintro @⟨before, _, after, hbefore, hafter, hhead, hlast⟩
    unfold trim
    rw [List.dropWhile_append_of_pos hbefore]
    cases core with
    | nil =>
      rw [List.nil_append, List.dropWhile_eq_nil_iff.mpr hafter]
      rfl
    | cons c core =>
      have hc : ¬ isBlank c = true := by simp [hhead c rfl]
      rw [List.cons_append, List.dropWhile_cons_of_neg hc, ← List.cons_append, List.reverse_append,
        dropWhile_run (by simpa using hafter) fun d hd => hlast d ?_,
        List.reverse_reverse]
      rwa [List.head?_reverse] at hd

end Text

/-! ## Decimals among the floating numbers -/

namespace Binary64

theorem ofChars?_of_spells {cs : List Char} {d : Decimal} (h : Decimal.Spells cs d) :
    ofChars? cs = some (ofDecimal d) := by
  have hread := Reader.decimal?_eq cs
  rwa [Reader.decimal?, if_pos (Reader.looksDecimal_of_spells h),
    Decimal.ofChars?_eq_some_iff.mpr h] at hread

/-- Special numbers have no value. -/
theorem value?_special {cs : List Char} {make : Bool → Binary64} (h : special? cs = some make)
    (negative : Bool) : (make negative).value? = none := by
  unfold special? at h
  split at h <;> cases h <;> rfl

theorem exists_spells_of_value? {cs : List Char} {x : Binary64} {value : ℚ}
    (h : ofChars? cs = some x) (hvalue : x.value? = some value) :
    ∃ d, Decimal.Spells cs d ∧ d.RoundsTo x := by
  simp only [ofChars?] at h
  split at h
  · next make hmake =>
    rw [← Option.some.inj h, value?_special hmake] at hvalue
    cases hvalue
  · obtain ⟨d, hd, hx⟩ := Option.map_eq_some_iff.mp h
    exact ⟨d, Decimal.ofChars?_eq_some_iff.mp hd, ofDecimal_eq_iff_roundsTo.mp hx⟩

end Binary64

namespace Settings

/-! ## What the texts mean -/

/-- The text is a numeral for the positive number `n`. -/
def IsMaxDepth (text : String) (n : UInt64) : Prop :=
  0 < n ∧ ∃ core, Text.Trimmed text.toList core ∧ Integer.SpellsNat core n.toNat

/-- The text is a numeral, and `x` is its value correctly rounded, finite and positive. -/
def IsTimeScale (text : String) (x : Binary64) : Prop :=
  (∃ value, x.value? = some value ∧ 0 < value) ∧
    ∃ core d, Text.Trimmed text.toList core ∧ Decimal.Spells core d ∧ d.RoundsTo x

/-- The text is one of the words, in any mixture of cases. -/
def IsOneOf (words : List String) (text : String) : Prop :=
  ∃ core, Text.Trimmed text.toList core ∧ String.ofList (core.map Char.toLower) ∈ words

theorem maxDepth?_eq_some_iff {text : String} {n : UInt64} :
    maxDepth? text = some n ↔ IsMaxDepth text n := by
  rw [maxDepth?, Option.filter_eq_some_iff, Integer.uint64?_eq_some_iff, decide_eq_true_eq]
  constructor
  · rintro ⟨hn, hpos⟩
    exact ⟨hpos, _, Text.trimmed_trim _, hn⟩
  · rintro ⟨hpos, core, hcore, hn⟩
    rw [Text.trim_eq_iff.mpr hcore]
    exact ⟨hn, hpos⟩

/-- The names of infinity and of what is not a number are read too, but are no scales. -/
theorem timeScale?_eq_some_iff {text : String} {x : Binary64} :
    timeScale? text = some x ↔ IsTimeScale text x := by
  rw [timeScale?, Option.filter_eq_some_iff, Binary64.isFinite_and_isPositive_iff]
  constructor
  · rintro ⟨hx, value, hvalue, hpos⟩
    obtain ⟨d, hd, hround⟩ := Binary64.exists_spells_of_value? hx hvalue
    exact ⟨⟨value, hvalue, hpos⟩, _, d, Text.trimmed_trim _, hd, hround⟩
  · rintro ⟨hpos, core, d, hcore, hd, hround⟩
    rw [Text.trim_eq_iff.mpr hcore, Binary64.ofChars?_of_spells hd,
      Binary64.ofDecimal_eq_iff_roundsTo.mpr hround]
    exact ⟨rfl, hpos⟩

theorem choice?_eq_some_true_iff {text : String} :
    choice? text = some true ↔ IsOneOf ["1", "true", "yes", "on"] text := by
  have hword : choice? text = some true ↔
      String.ofList ((Text.trim text.toList).map Char.toLower) ∈ ["1", "true", "yes", "on"] := by
    unfold choice?
    split <;> simp_all
  rw [hword]
  constructor
  · exact fun h => ⟨_, Text.trimmed_trim _, h⟩
  · rintro ⟨core, hcore, h⟩
    rwa [Text.trim_eq_iff.mpr hcore]

/-! ## Variables -/

/-- `Overlaid Means standard text? a` says that `a` is what the text of a variable means, and is
`standard` if there is no text or the text means nothing. -/
inductive Overlaid {α : Type} (Means : String → α → Prop) (standard : α) : Option String → α → Prop
  | given {text : String} {a : α} : Means text a → Overlaid Means standard (some text) a
  | unset : Overlaid Means standard none standard
  | meaningless {text : String} :
    (∀ a, ¬ Means text a) → Overlaid Means standard (some text) standard

theorem getD_bind_eq_iff {α : Type} {read : String → Option α} {Means : String → α → Prop}
    (h : ∀ {text a}, read text = some a ↔ Means text a) {standard a : α} {text? : Option String} :
    (text?.bind read).getD standard = a ↔ Overlaid Means standard text? a := by
  cases text? with
  | none =>
    constructor
    · rintro rfl
      exact .unset
    · rintro ⟨⟩
      rfl
  | some text =>
    rw [Option.bind_some]
    constructor
    · rintro rfl
      cases hread : read text with
      | none =>
        refine .meaningless fun a ha => ?_
        rw [h.mpr ha] at hread
        cases hread
      | some a => exact .given (h.mp hread)
    · rintro (hmeans | - | hnone)
      · rw [h.mpr hmeans, Option.getD_some]
      · have hread : read text = none :=
          Option.eq_none_iff_forall_ne_some.mpr fun a ha => hnone a (h.mp ha)
        rw [hread, Option.getD_none]

/-- What holds for all meanings and without variables, holds always. -/
theorem Overlaid.forall {α : Type} {Means : String → α → Prop} {standard a : α}
    {text? : Option String} (h : Overlaid Means standard text? a) {P : α → Prop}
    (hmeans : ∀ {text b}, Means text b → P b) (hstandard : P standard) : P a := by
  rcases h with ha | - | -
  · exact hmeans ha
  · exact hstandard
  · exact hstandard

/-- No two settings share a variable. -/
theorem variables_nodup :
    [maxDepthVariable, timeScaleVariable, strictSysArgsVariable].Nodup := by
  decide

variable (lookup : String → Option String)

theorem maxDepth_eq_iff {n : UInt64} : (ofLookup lookup).maxDepth = n ↔
    Overlaid IsMaxDepth ({} : Settings).maxDepth (lookup maxDepthVariable) n :=
  getD_bind_eq_iff maxDepth?_eq_some_iff

theorem timeScale_eq_iff {x : Binary64} : (ofLookup lookup).timeScale = x ↔
    Overlaid IsTimeScale ({} : Settings).timeScale (lookup timeScaleVariable) x :=
  getD_bind_eq_iff timeScale?_eq_some_iff

theorem strictSysArgs_iff : (ofLookup lookup).strictSysArgs = true ↔
    ∃ text, lookup strictSysArgsVariable = some text ∧
      IsOneOf ["1", "true", "yes", "on"] text := by
  show ((lookup strictSysArgsVariable).bind choice?).getD false = true ↔ _
  simp only [Option.getD_eq_iff, Option.bind_eq_some_iff, choice?_eq_some_true_iff,
    Bool.false_eq_true, and_false, or_false]

/-- The depth limit is positive. -/
theorem maxDepth_pos : 0 < (ofLookup lookup).maxDepth :=
  ((maxDepth_eq_iff lookup).mp rfl).forall (fun h => h.1) (by decide)

/-- The time scale is a positive finite number. -/
theorem timeScale_pos : ∃ value, (ofLookup lookup).timeScale.value? = some value ∧ 0 < value :=
  ((timeScale_eq_iff lookup).mp rfl).forall (fun h => h.1)
    (Binary64.isFinite_and_isPositive_iff.mp (by decide +kernel))

/-- **Every setting is what the text of its own variable means, or stays as it is without variables,
and the settings are always valid.** -/
theorem ofLookup_overlaid :
    [maxDepthVariable, timeScaleVariable, strictSysArgsVariable] =
      ["EEVO_MAX_DEPTH", "EEVO_TIME_SCALE", "EEVO_STRICT_SYS"] ∧
    [maxDepthVariable, timeScaleVariable, strictSysArgsVariable].Nodup ∧
    1 ≤ (ofLookup lookup).maxDepth.toNat ∧
    (∃ value, (ofLookup lookup).timeScale.value? = some value ∧ 0 < value) ∧
    (∀ n, (ofLookup lookup).maxDepth = n ↔
      Overlaid IsMaxDepth ({} : Settings).maxDepth (lookup maxDepthVariable) n) ∧
    (∀ x, (ofLookup lookup).timeScale = x ↔
      Overlaid IsTimeScale ({} : Settings).timeScale (lookup timeScaleVariable) x) ∧
    ((ofLookup lookup).strictSysArgs = true ↔
      ∃ text, lookup strictSysArgsVariable = some text ∧
        IsOneOf ["1", "true", "yes", "on"] text) ∧
    ∀ other : String → Option String,
      (other maxDepthVariable = lookup maxDepthVariable →
        (ofLookup other).maxDepth = (ofLookup lookup).maxDepth) ∧
      (other timeScaleVariable = lookup timeScaleVariable →
        (ofLookup other).timeScale = (ofLookup lookup).timeScale) ∧
      (other strictSysArgsVariable = lookup strictSysArgsVariable →
        (ofLookup other).strictSysArgs = (ofLookup lookup).strictSysArgs) := by
  refine ⟨rfl, variables_nodup, maxDepth_pos lookup, timeScale_pos lookup,
    fun n => maxDepth_eq_iff lookup, fun x => timeScale_eq_iff lookup, strictSysArgs_iff lookup,
    fun other => ⟨?_, ?_, ?_⟩⟩
  · intro h
    rw [maxDepth_eq_iff, h]
    exact (maxDepth_eq_iff lookup).mp rfl
  · intro h
    rw [timeScale_eq_iff, h]
    exact (timeScale_eq_iff lookup).mp rfl
  · intro h
    rw [Bool.eq_iff_iff, strictSysArgs_iff, strictSysArgs_iff, h]

end Settings

end HostScript
