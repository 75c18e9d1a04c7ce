import HostScript.Value.Basic

/-!
# Equality of values

Values are compared by walking chains of pairs side by side (`Value.equalChains`). What this decides
is structural equality (`Value.Same`): two values are the same if they are of one kind and their
parts are the same, where decimals are compared as numbers. Structural equality is symmetric and
transitive, and it is reflexive on all values but those in which something stands that is not a
number, since this alone differs from itself.

Quoting keeps values apart exactly if the expressions differ (`Value.beq_ofExpr`): the chain that
stands for a list is walked as the list is.
-/

namespace HostScript

/-! ## Numbers -/

namespace Binary64

theorem beq_comm (x y : Binary64) : (x == y) = (y == x) := by
  show equal x y = equal y x
  cases x <;> cases y <;> simp only [equal]
  · exact Bool.beq_comm
  · next s r t q =>
    by_cases h : r = q
    · rw [h, Bool.beq_comm (a := s)]
    · rw [beq_false_of_ne h, beq_false_of_ne (Ne.symm h)]
      rfl

theorem beq_trans {x y z : Binary64} (hxy : (x == y) = true) (hyz : (y == z) = true) :
    (x == z) = true := by
  change equal x y = true at hxy
  change equal y z = true at hyz
  show equal x z = true
  cases x <;> cases y <;> cases z <;> simp only [equal, Bool.false_eq_true] at hxy hyz ⊢
  · rw [beq_iff_eq] at hxy hyz ⊢
    exact hxy.trans hyz
  · simp only [Bool.and_eq_true, Bool.or_eq_true, beq_iff_eq] at hxy hyz ⊢
    obtain ⟨rfl, hsign⟩ := hxy
    obtain ⟨rfl, hsign'⟩ := hyz
    refine ⟨rfl, ?_⟩
    rcases hsign with rfl | hzero
    · exact hsign'
    · exact Or.inr hzero

/-- A number is equal to itself, and what is not a number is not. -/
theorem beq_self_iff {x : Binary64} : (x == x) = true ↔ x ≠ nan := by
  show equal x x = true ↔ x ≠ nan
  cases x <;> simp [equal]

end Binary64

namespace Value

/-! ## Structural equality -/

mutual

/-- The values are of one kind and their parts are the same, decimals as numbers. -/
inductive Same : Value → Value → Prop
  | void : Same void void
  | nil : Same nil nil
  | int (n : Int64) : Same (int n) (int n)
  | dec {x y : Binary64} : (x == y) = true → Same (dec x) (dec y)
  | text (content : String) : Same (text content) (text content)
  | symbol (name : String) : Same (symbol name) (symbol name)
  | pair {a as b bs : Value} : Same a b → Same as bs → Same (pair a as) (pair b bs)
  | record {fs gs : List (String × Value)} : SameFields fs gs → Same (record fs) (record gs)
  | primitive (name : String) : Same (primitive name) (primitive name)

/-- The fields have the same names and the same values in the same order. -/
inductive SameFields : List (String × Value) → List (String × Value) → Prop
  | nil : SameFields [] []
  | cons {name : String} {a b : Value} {fs gs : List (String × Value)} :
    Same a b → SameFields fs gs → SameFields ((name, a) :: fs) ((name, b) :: gs)

end

mutual

theorem Same.symm : ∀ {a b : Value}, Same a b → Same b a
  | _, _, .void => .void
  | _, _, .nil => .nil
  | _, _, .int n => .int n
  | _, _, .dec h => .dec (by rwa [Binary64.beq_comm])
  | _, _, .text content => .text content
  | _, _, .symbol name => .symbol name
  | _, _, .pair h hs => .pair h.symm hs.symm
  | _, _, .record h => .record h.symm
  | _, _, .primitive name => .primitive name

theorem SameFields.symm : ∀ {fs gs : List (String × Value)}, SameFields fs gs → SameFields gs fs
  | _, _, .nil => .nil
  | _, _, .cons h hs => .cons h.symm hs.symm

end

mutual

theorem Same.trans : ∀ {a b c : Value}, Same a b → Same b c → Same a c
  | _, _, _, .void, h => h
  | _, _, _, .nil, h => h
  | _, _, _, .int _, h => h
  | _, _, _, .dec h, .dec h' => .dec (Binary64.beq_trans h h')
  | _, _, _, .text _, h => h
  | _, _, _, .symbol _, h => h
  | _, _, _, .pair h hs, .pair h' hs' => .pair (h.trans h') (hs.trans hs')
  | _, _, _, .record h, .record h' => .record (h.trans h')
  | _, _, _, .primitive _, h => h

theorem SameFields.trans : ∀ {fs gs ks : List (String × Value)},
    SameFields fs gs → SameFields gs ks → SameFields fs ks
  | _, _, _, .nil, h => h
  | _, _, _, .cons h hs, .cons h' hs' => .cons (h.trans h') (hs.trans hs')

end

/-! ## Reflexivity -/

/-- `v` is the value, or stands in it: in the front or the end of a pair or in a field. -/
inductive OccursIn (v : Value) : Value → Prop
  | self : OccursIn v v
  | car {a as : Value} : OccursIn v a → OccursIn v (pair a as)
  | cdr {a as : Value} : OccursIn v as → OccursIn v (pair a as)
  | field {name : String} {w : Value} {fs : List (String × Value)} :
    (name, w) ∈ fs → OccursIn v w → OccursIn v (record fs)

mutual

/-- **A value is the same as itself if nothing stands in it that is not a number.** -/
theorem same_self_iff : ∀ a : Value, Same a a ↔ ¬ (dec .nan).OccursIn a
  | void => ⟨fun _ => nofun, fun _ => .void⟩
  | nil => ⟨fun _ => nofun, fun _ => .nil⟩
  | int n => ⟨fun _ => nofun, fun _ => .int n⟩
  | text content => ⟨fun _ => nofun, fun _ => .text content⟩
  | symbol name => ⟨fun _ => nofun, fun _ => .symbol name⟩
  | primitive name => ⟨fun _ => nofun, fun _ => .primitive name⟩
  | dec x => by
    constructor
    · intro h hnan
      cases h with
      | dec h =>
        cases hnan
        exact Binary64.beq_self_iff.mp h rfl
    · intro hnan
      refine .dec (Binary64.beq_self_iff.mpr ?_)
      rintro rfl
      exact hnan .self
  | pair a as => by
    constructor
    · intro h hnan
      cases h with
      | pair h hs =>
        cases hnan with
        | car hnan => exact (same_self_iff a).mp h hnan
        | cdr hnan => exact (same_self_iff as).mp hs hnan
    · intro hnan
      exact .pair ((same_self_iff a).mpr fun h => hnan (.car h))
        ((same_self_iff as).mpr fun h => hnan (.cdr h))
  | record fs => by
    constructor
    · intro h hnan
      cases h with
      | record h =>
        cases hnan with
        | field hmem hnan => exact (sameFields_self_iff fs).mp h _ _ hmem hnan
    · intro hnan
      exact .record ((sameFields_self_iff fs).mpr fun _ _ hmem h => hnan (.field hmem h))

theorem sameFields_self_iff : ∀ fs : List (String × Value),
    SameFields fs fs ↔ ∀ name w, (name, w) ∈ fs → ¬ (dec .nan).OccursIn w
  | [] => ⟨fun _ => nofun, fun _ => .nil⟩
  | (name, w) :: fs => by
    constructor
    · intro h name' w' hmem
      cases h with
      | cons h hs =>
        rcases List.mem_cons.mp hmem with heq | hmem
        · cases heq
          exact (same_self_iff w).mp h
        · exact (sameFields_self_iff fs).mp hs name' w' hmem
    · intro hnan
      exact .cons ((same_self_iff w).mpr (hnan name w List.mem_cons_self))
        ((sameFields_self_iff fs).mpr fun name' w' hmem =>
          hnan name' w' (List.mem_cons_of_mem _ hmem))

end

/-! ## Chains -/

/-- Walking two chains compares their first values and then what follows these. -/
theorem equal_pair (a as b bs : Value) :
    equal (pair a as) (pair b bs) = (equal a b && equal as bs) := by
  rw [equal, equalChains.eq_def]
  cases equal a b with
  | false => rfl
  | true =>
    rw [if_pos rfl, Bool.true_and]
    split
    · rw [equal]
    · rfl

/-! ## Equality decides sameness -/

/-- The values that have no parts and are no decimals, so that only a value itself is the same. -/
def IsPlain : Value → Prop
  | dec _ | pair _ _ | record _ => False
  | _ => True

theorem equal_iff_eq {a : Value} (h : a.IsPlain) (b : Value) : equal a b = true ↔ a = b := by
  cases a with
  | dec | pair | record => cases h
  | _ => cases b <;> simp [equal]

theorem same_iff_eq {a : Value} (h : a.IsPlain) (b : Value) : Same a b ↔ a = b := by
  constructor
  · intro hs
    cases hs with
    | dec | pair | record => cases h
    | _ => rfl
  · rintro rfl
    cases a with
    | dec | pair | record => cases h
    | _ => constructor

mutual

/-- **Values are equal if and only if they are the same.** -/
theorem equal_iff_same : ∀ a b : Value, equal a b = true ↔ Same a b
  | void, b | nil, b | int _, b | text _, b | symbol _, b | primitive _, b => by
    rw [equal_iff_eq (by trivial), same_iff_eq (by trivial)]
  | dec x, b => by
    cases b with
    | dec y =>
      rw [equal]
      exact ⟨.dec, fun | .dec h => h⟩
    | _ => exact ⟨by simp [equal], nofun⟩
  | pair a as, b => by
    cases b with
    | pair b bs =>
      rw [equal_pair, Bool.and_eq_true, equal_iff_same a b, equal_iff_same as bs]
      exact ⟨fun ⟨h, hs⟩ => .pair h hs, fun | .pair h hs => ⟨h, hs⟩⟩
    | _ => exact ⟨by simp [equal], nofun⟩
  | record fs, b => by
    cases b with
    | record gs =>
      rw [equal, equalFields_iff_sameFields fs gs]
      exact ⟨.record, fun | .record h => h⟩
    | _ => exact ⟨by simp [equal], nofun⟩

theorem equalFields_iff_sameFields : ∀ fs gs : List (String × Value),
    equalFields fs gs = true ↔ SameFields fs gs
  | [], gs => by
    cases gs with
    | nil => exact ⟨fun _ => .nil, fun _ => by rw [equalFields]⟩
    | cons g gs => exact ⟨by simp [equalFields], nofun⟩
  | (m, a) :: fs, gs => by
    cases gs with
    | nil => exact ⟨by simp [equalFields], nofun⟩
    | cons g gs =>
      obtain ⟨n, b⟩ := g
      rw [equalFields, Bool.and_eq_true, Bool.and_eq_true, beq_iff_eq, equal_iff_same a b,
        equalFields_iff_sameFields fs gs]
      constructor
      · rintro ⟨⟨rfl, h⟩, hs⟩
        exact .cons h hs
      · rintro (_ | ⟨h, hs⟩)
        exact ⟨⟨rfl, h⟩, hs⟩

end

/-- **Equality is structural, and a partial equivalence.** It is symmetric and transitive, and all
values are equal to themselves but those in which something stands that is not a number. Pairs are
equal if their parts are: walking two chains, of whatever lengths and ends, decides the same as
comparing them part by part. -/
theorem beq_structural :
    (∀ a b : Value, (a == b) = (b == a)) ∧
    (∀ a b c : Value, (a == b) = true → (b == c) = true → (a == c) = true) ∧
    (∀ a : Value, (a == a) = true ↔ ¬ (dec .nan).OccursIn a) ∧
    (∀ a as b bs : Value,
      (pair a as == pair b bs) = true ↔ (a == b) = true ∧ (as == bs) = true) ∧
    ∀ a b : Value, (a == b) = true ↔ Same a b := by
  have hsame : ∀ a b : Value, (a == b) = true ↔ Same a b := equal_iff_same
  refine ⟨fun a b => ?_, fun a b c hab hbc => ?_, fun a => ?_, fun a as b bs => ?_, hsame⟩
  · rw [Bool.eq_iff_iff, hsame, hsame]
    exact ⟨Same.symm, Same.symm⟩
  · exact (hsame a c).mpr (((hsame a b).mp hab).trans ((hsame b c).mp hbc))
  · rw [hsame, same_self_iff]
  · rw [hsame, hsame, hsame]
    exact ⟨fun | .pair h hs => ⟨h, hs⟩, fun ⟨h, hs⟩ => .pair h hs⟩

/-- The two zeros in chains with a record at the end: from `(0.0 () . {x: -0.0})` by way of
`(-0.0 () . {x: -0.0})` to `(-0.0 () . {x: 0.0})`. -/
theorem beq_structural_zeros :
    let zero (negative : Bool) : Value := dec (.finite negative ⟨0, by decide⟩)
    let chain (x y : Value) : Value := pair x (pair nil (record [("x", y)]))
    let a := chain (zero false) (zero true)
    let b := chain (zero true) (zero true)
    let c := chain (zero true) (zero false)
    (a == b) = true ∧ (b == c) = true ∧ (a == c) = true := by
  intro zero chain a b c
  have hchain : ∀ r s t u : Bool,
      (chain (zero r) (zero s) == chain (zero t) (zero u)) = true := by
    intro r s t u
    have hzero : ∀ m n : Bool, Same (zero m) (zero n) := by
      intro m n
      refine .dec ?_
      cases m <;> cases n <;> rfl
    exact (equal_iff_same _ _).mpr
      (.pair (hzero r t) (.pair .nil (.record (.cons (hzero s u) .nil))))
  have hab : (a == b) = true := hchain _ _ _ _
  have hbc : (b == c) = true := hchain _ _ _ _
  exact ⟨hab, hbc, beq_structural.2.1 a b c hab hbc⟩

/-! ## Quoting -/

mutual

theorem equal_ofExpr : ∀ a b : Expr, equal (ofExpr a) (ofExpr b) = Expr.equal a b
  | .int _, b | .dec _, b | .symbol _, b | .text _, b => by
    cases b with
    | list bs => cases bs <;> simp only [ofExpr, ofExprs, equal, Expr.equal]
    | _ => simp only [ofExpr, equal, Expr.equal]
  | .list as, b => by
    cases b with
    | list bs => rw [ofExpr, ofExpr, Expr.equal, equal_ofExprs as bs]
    | _ => cases as <;> simp only [ofExpr, ofExprs, equal, Expr.equal]

/-- The walk along two chains agrees with the comparison of the lists that they stand for. -/
theorem equal_ofExprs : ∀ as bs : List Expr,
    equal (ofExprs as) (ofExprs bs) = Expr.equalAll as bs
  | [], [] | [], _ :: _ | _ :: _, [] => by simp only [ofExprs, equal, Expr.equalAll]
  | a :: as, b :: bs => by
    rw [ofExprs, ofExprs, equal_pair, equal_ofExpr a b, equal_ofExprs as bs, Expr.equalAll]

end

/-- **Quoting preserves and reflects equality.** Two expressions are equal just if they are equal as
data. -/
theorem beq_ofExpr (a b : Expr) : (ofExpr a == ofExpr b) = true ↔ (a == b) = true := by
  show equal (ofExpr a) (ofExpr b) = true ↔ Expr.equal a b = true
  rw [equal_ofExpr]

end Value

end HostScript
