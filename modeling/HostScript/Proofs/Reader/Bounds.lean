import HostScript.Proofs.Reader.Agreement
import HostScript.Proofs.Reader.Walk

/-!
# Bounds of a walk, step by step

A trail that goes on to a place in bounds and no earlier stays orderly (`Orderly.goTo`). Each step of
a walk goes to such a place, since the walk stands where the descent does (`Stands`), and so the text
can be cut there: `Leads` says this of a walk, and holds of one walk after another (`Leads.bind`).
With it come the walks that only go past something, one round for each character.
-/

namespace HostScript.Reader.Walk

open Descent (Refusal Cursor After)

variable {cs : List Char}

/-! ## Places and trails in bounds -/

/-- A place in the text: a character begins there or the text ends there, and no more forms are being
read than may be. -/
structure Place.InBounds (cs : List Char) (place : Place) : Prop where
  boundary : ∃ before rest, cs = before ++ rest ∧ place.position = byteLength before
  depth_nonneg : 0 ≤ place.depth
  depth_le : place.depth ≤ depthLimit

/-- A trail through places in bounds that never goes back. -/
structure Orderly (cs : List Char) (t : Trail) : Prop where
  inBounds : ∀ place ∈ t.places, place.InBounds cs
  sorted : t.places.Pairwise fun later earlier => earlier.position ≤ later.position

theorem orderly_start : Orderly cs {} where
  inBounds := by
    intro place hplace
    obtain rfl := List.mem_singleton.mp hplace
    exact ⟨⟨[], cs, rfl, rfl⟩, Int.le_refl 0, by decide⟩
  sorted := List.pairwise_singleton _ _

/-- A trail is orderly up to each of its places. -/
theorem Orderly.of_suffix {t reached : Trail} (h : Orderly cs t)
    (hreached : reached.places <:+ t.places) : Orderly cs reached where
  inBounds := fun place hplace => h.inBounds place (hreached.subset hplace)
  sorted := h.sorted.sublist hreached.sublist

theorem Orderly.here {t : Trail} (h : Orderly cs t) : t.here.InBounds cs :=
  h.inBounds t.here List.mem_cons_self

/-- No place of an orderly trail is after the one where it stands. -/
theorem Orderly.position_le {t : Trail} (h : Orderly cs t) {place : Place}
    (hplace : place ∈ t.places) : place.position ≤ t.here.position := by
  rcases List.mem_cons.mp hplace with rfl | hplace
  · exact Nat.le_refl _
  · exact List.rel_of_pairwise_cons h.sorted hplace

/-- **A step to a place in bounds that is no earlier keeps a trail orderly.** -/
theorem Orderly.goTo {t : Trail} (h : Orderly cs t) {place : Place} (hplace : place.InBounds cs)
    (hle : t.here.position ≤ place.position) : Orderly cs (t.goTo place) where
  inBounds := by
    intro p hp
    rcases List.mem_cons.mp hp with rfl | hp
    · exact hplace
    · exact h.inBounds p hp
  sorted := by
    refine List.pairwise_cons.mpr ⟨fun p hp => ?_, h.sorted⟩
    exact Nat.le_trans (h.position_le hp) hle

theorem suffix_goTo (t : Trail) (place : Place) : t.places <:+ (t.goTo place).places :=
  List.suffix_cons place t.places

/-! ## Where the descent stands -/

/-- The walk and the descent stand at the same byte, with as many forms being read. -/
structure Stands (cs : List Char) (cur : Cursor) (place : Place) : Prop where
  exists_before : ∃ before, cs = before ++ cur.rest ∧ place.position = byteLength before
  position : place.position = cur.position
  depth : place.depth = cur.depth
  depth_le : cur.depth ≤ depthLimit

theorem Stands.inBounds {cur : Cursor} {place : Place} (h : Stands cs cur place) :
    place.InBounds cs := by
  obtain ⟨before, hcs, hposition⟩ := h.exists_before
  refine ⟨⟨before, cur.rest, hcs, hposition⟩, ?_, ?_⟩
  · rw [h.depth]
    exact Int.natCast_nonneg _
  · rw [h.depth]
    exact Int.ofNat_le.mpr h.depth_le

theorem Place.InBounds.exists_stands {place : Place} (h : place.InBounds cs) :
    ∃ cur, Stands cs cur place := by
  obtain ⟨before, rest, hcs, hposition⟩ := h.boundary
  have hdepth : (place.depth.toNat : Int) = place.depth := Int.toNat_of_nonneg h.depth_nonneg
  refine ⟨⟨rest, place.position, place.depth.toNat⟩, ⟨before, hcs, hposition⟩, rfl,
    hdepth.symm, ?_⟩
  exact Int.ofNat_le.mp (hdepth ▸ h.depth_le)

/-- Past some characters, the walk stands further on. -/
theorem Stands.advance {cur next : Cursor} {place : Place} (h : Stands cs cur place)
    {read : List Char} (hrest : cur.rest = read ++ next.rest)
    (hposition : next.position = cur.position + byteLength read) (hdepth : next.depth = cur.depth) :
    Stands cs next { place with position := place.position + byteLength read } := by
  obtain ⟨before, hcs, hplace⟩ := h.exists_before
  refine ⟨⟨before ++ read, ?_, ?_⟩, ?_, ?_, ?_⟩
  · rw [hcs, hrest, List.append_assoc]
  · rw [hplace, byteLength_append]
  · rw [hposition, h.position]
  · rw [hdepth, h.depth]
  · rw [hdepth]
    exact h.depth_le

/-- Where less is left of the text, the walk stands at a later byte. -/
theorem Stands.position_lt {cur next : Cursor} {p q : Place} (hp : Stands cs cur p)
    (hq : Stands cs next q) (h : next.rest.length < cur.rest.length) : p.position < q.position := by
  obtain ⟨before, hcs, hposition⟩ := hp.exists_before
  obtain ⟨before', hcs', hposition'⟩ := hq.exists_before
  have hsplit : before ++ cur.rest = before' ++ next.rest := hcs.symm.trans hcs'
  rw [hposition, hposition']
  rcases List.append_eq_append_iff.mp hsplit with ⟨read, rfl, hread⟩ | ⟨read, rfl, hread⟩
  · cases read with
    | nil =>
      rw [hread] at h
      exact absurd h (Nat.lt_irrefl _)
    | cons c read =>
      rw [byteLength_append, byteLength_cons]
      have := c.utf8Size_pos
      omega
  · rw [hread, List.length_append] at h
    omega

/-! ## Walks that lead somewhere -/

/-- `Leads cs cur x result stop` says that the walk `x`, begun where the descent stands at `cur`,
comes to an end with `result` where the descent stands at `stop`, along an orderly trail. -/
def Leads (cs : List Char) (cur : Cursor) {α : Type} (x : Walk α) (result : Except Stop α)
    (stop : Cursor) : Prop :=
  ∀ t : Trail, Orderly cs t → Stands cs cur t.here →
    ∃ t', x t = some (result, t') ∧ Orderly cs t' ∧ t.places <:+ t'.places ∧
      Stands cs stop t'.here

namespace Leads

variable {α β : Type} {cur mid stop : Cursor} {x : Walk α} {f : α → Walk β}

theorem pure (a : α) : Leads cs cur (Pure.pure a : Walk α) (.ok a) cur :=
  fun t ht hs => ⟨t, rfl, ht, List.suffix_refl _, hs⟩

theorem refuse (refusal : Refusal) :
    Leads cs cur (Walk.refuse refusal : Walk α) (.error (.refused refusal cur.position)) cur :=
  fun t ht hs => ⟨t, by rw [Walk.refuse, hs.position], ht, List.suffix_refl _, hs⟩

theorem bind {a : α} {result : Except Stop β} (hx : Leads cs cur x (.ok a) mid)
    (hf : Leads cs mid (f a) result stop) : Leads cs cur (x >>= f) result stop := by
  intro t ht hs
  obtain ⟨t', hxt, ht', hsuffix, hs'⟩ := hx t ht hs
  obtain ⟨t'', hft, ht'', hsuffix', hs''⟩ := hf t' ht' hs'
  exact ⟨t'', (bind_ok hxt).trans hft, ht'', hsuffix.trans hsuffix', hs''⟩

theorem bind_error {halt : Stop} (hx : Leads cs cur x (.error halt) stop) :
    Leads cs cur (x >>= f) (.error halt) stop := by
  intro t ht hs
  obtain ⟨t', hxt, ht', hsuffix, hs'⟩ := hx t ht hs
  exact ⟨t', Walk.bind_error hxt, ht', hsuffix, hs'⟩

/-- A step to a place that is no earlier. -/
theorem goTo {place next : Place} (hplace : Stands cs cur place) (hnext : Stands cs stop next)
    (hle : place.position ≤ next.position) :
    Leads cs cur (Walk.goTo next) (.ok ()) stop := by
  intro t ht hs
  rw [hplace.position, ← hs.position] at hle
  exact ⟨t.goTo next, rfl, ht.goTo hnext.inBounds hle, suffix_goTo t next, hnext⟩

/-- The place where a walk stands can be looked up. -/
theorem here_bind {f : Place → Walk β} {result : Except Stop β}
    (hf : ∀ place, Stands cs cur place → Leads cs cur (f place) result stop) :
    Leads cs cur (here >>= f) result stop := by
  intro t ht hs
  obtain ⟨t', hft, h⟩ := hf t.here hs t ht hs
  exact ⟨t', (bind_ok rfl).trans hft, h⟩

/-- Where the descent stands, the text can be cut. -/
theorem current : Leads cs cur (Walk.current cs) (.ok cur.rest.head?) cur := by
  refine here_bind fun place hs => ?_
  obtain ⟨before, hcs, hposition⟩ := hs.exists_before
  have hcut : fromByte? place.position cs = some cur.rest := by
    rw [hcs, hposition, fromByte?_byteLength]
  rw [hcut]
  exact bind (pure cur.rest) (pure cur.rest.head?)

theorem current_none (h : cur.next? = none) : Leads cs cur (Walk.current cs) (.ok none) cur := by
  have hcurrent : Leads cs cur (Walk.current cs) (.ok cur.rest.head?) cur := current
  rwa [Cursor.rest_of_next?_eq_none h] at hcurrent

variable {c : Char} {next : After cur}

theorem current_some (h : cur.next? = some (c, next)) :
    Leads cs cur (Walk.current cs) (.ok (some c)) cur := by
  have hcurrent : Leads cs cur (Walk.current cs) (.ok cur.rest.head?) cur := current
  rwa [(Cursor.of_next?_eq_some h).1] at hcurrent

theorem bump (h : cur.next? = some (c, next)) : Leads cs cur (Walk.bump cs) (.ok ()) next := by
  obtain ⟨hrest, hposition, hdepth⟩ := Cursor.of_next?_eq_some h
  refine bind (current_some h) (here_bind fun place hplace => ?_)
  have hnext : Stands cs next { place with position := place.position + byteLength [c] } :=
    hplace.advance hrest hposition hdepth
  exact goTo hplace hnext (Nat.le_add_right _ _)

theorem expect (h : cur.next? = some (c, next)) :
    Leads cs cur (Walk.expect cs c) (.ok ()) next := by
  refine bind (current_some h) ?_
  rw [if_pos rfl]
  exact bump h

/-! ## Blanks and atoms -/

mutual

theorem skipFrom (depth position : Nat) : ∀ (rest : List Char) (rounds : Nat),
    rest.length + 2 ≤ rounds →
      Leads cs ⟨rest, position, depth⟩ (skip cs rounds)
        (.ok !(Cursor.skipFrom depth position rest).rest.isEmpty)
        (Cursor.skipFrom depth position rest)
  | rest, 0, h => by omega
  | [], rounds + 1, _ => by
    rw [skip]
    exact bind (current_none rfl) (pure false)
  | c :: rest, rounds + 1, h => by
    rw [List.length_cons] at h
    have hnext := Cursor.next?_cons c rest position depth
    rw [skip, Cursor.skipFrom]
    refine bind (current_some hnext) ?_
    simp only
    split
    · exact bind (bump hnext) (skipFrom depth (position + c.utf8Size) rest rounds (by omega))
    split
    · next hcomment =>
      subst hcomment
      -- The mark of the comment is on its line too, so it is gone past in the first of the rounds.
      obtain ⟨rounds, rfl⟩ : ∃ n, rounds = n + 1 := ⟨rounds - 1, by omega⟩
      obtain ⟨mid, hline, hskip⟩ := skipComment depth (position + ';'.utf8Size) rest rounds
        (rounds + 1) (by omega) (by omega)
      refine bind (a := ()) ?_ hskip
      rw [skipLine]
      exact bind (current_some hnext) (bind (bump hnext) hline)
    · exact pure true

/-- The same from inside a comment: first to the end of the line, then on from there. -/
theorem skipComment (depth position : Nat) : ∀ (rest : List Char) (rounds more : Nat),
    rest.length + 1 ≤ rounds → rest.length + 2 ≤ more →
      ∃ mid, Leads cs ⟨rest, position, depth⟩ (skipLine cs rounds) (.ok ()) mid ∧
        Leads cs mid (skip cs more)
          (.ok !(Cursor.skipComment depth position rest).rest.isEmpty)
          (Cursor.skipComment depth position rest)
  | rest, 0, _, h, _ => by omega
  | [], rounds + 1, more, _, hmore => by
    refine ⟨_, ?_, skipFrom depth position [] more hmore⟩
    rw [skipLine]
    exact bind (current_none rfl) (pure ())
  | c :: rest, rounds + 1, more, h, hmore => by
    rw [List.length_cons] at h hmore
    have hnext := Cursor.next?_cons c rest position depth
    rw [Cursor.skipComment]
    split
    · next hline =>
      refine ⟨_, ?_, skipFrom depth (position + c.utf8Size) rest more (by omega)⟩
      rw [skipLine]
      refine bind (current_some hnext) (bind (bump hnext) ?_)
      rw [if_pos hline]
      exact pure ()
    · next hline =>
      obtain ⟨mid, hrest, hskip⟩ := skipComment depth (position + c.utf8Size) rest rounds more
        (by omega) (by omega)
      refine ⟨mid, ?_, hskip⟩
      rw [skipLine]
      refine bind (current_some hnext) (bind (bump hnext) ?_)
      rw [if_neg hline]
      exact hrest

end

theorem skip {rounds : Nat} (h : cur.rest.length + 2 ≤ rounds) :
    Leads cs cur (Walk.skip cs rounds) (.ok !cur.skip.rest.isEmpty) cur.skip :=
  skipFrom cur.depth cur.position cur.rest rounds h

theorem skipWord (depth : Nat) : ∀ (position : Nat) (rest : List Char) (rounds : Nat),
    rest.length + 1 ≤ rounds →
      Leads cs ⟨rest, position, depth⟩ (Walk.skipWord cs rounds) (.ok ())
        ⟨rest.dropWhile (!isDelimiter ·),
          position + byteLength (rest.takeWhile (!isDelimiter ·)), depth⟩
  | _, rest, 0, h => by omega
  | position, [], rounds + 1, _ => by
    rw [Walk.skipWord]
    exact bind (current_none rfl) (pure ())
  | position, c :: rest, rounds + 1, h => by
    have hnext := Cursor.next?_cons c rest position depth
    rw [Walk.skipWord]
    refine bind (current_some hnext) ?_
    cases hc : isDelimiter c with
    | true =>
      simp only [hc, if_true, List.dropWhile_cons, List.takeWhile_cons, Bool.not_true,
        Bool.false_eq_true, if_false]
      exact pure ()
    | false =>
      simp only [hc, Bool.false_eq_true, if_false, List.dropWhile_cons, List.takeWhile_cons,
        Bool.not_false, if_true, byteLength_cons, ← Nat.add_assoc]
      exact bind (bump hnext)
        (skipWord depth (position + c.utf8Size) rest rounds (Nat.le_of_succ_le_succ h))

end Leads

end HostScript.Reader.Walk
