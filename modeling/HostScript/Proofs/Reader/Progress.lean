import HostScript.Proofs.Reader.Bounds
import HostScript.Proofs.Reader.Refusals

/-!
# Progress of a walk

A walk through a script comes to its end, with what the reader makes of the script, and all places
on its trail are in bounds: no cut ever fails, no more forms are being read than may be, and no step
goes back (`readForms_progress`).

Each part of the walk leads where the same part of the descent leads (`Retraces`), along an orderly
trail. Three rounds for each character that is left, and a few more, are enough: what is left gets
shorter from form to form, and between two characters no more than three calls are made inside each
other.
-/

namespace HostScript.Reader.Walk

open Descent (Refusal Cursor Outcome After)

variable {cs : List Char}

/-! ## Along the descent -/

/-- A refusal of the descent as the walk gives it. -/
def refusedAt : Refusal × Cursor → Stop
  | (refusal, stop) => .refused refusal stop.position

section

variable {α β : Type} {start : Cursor}

/-- What a walk ends with where the descent has the given outcome. -/
def result : Outcome start α → Except Stop α
  | .error refused => .error (refusedAt refused)
  | .ok (a, _) => .ok a

/-- Where the descent stands at the end. -/
def stop : Outcome start α → Cursor
  | .error (_, stop) => stop
  | .ok (_, next) => next.1

/-- `Retraces cs cur x outcome` says that the walk `x`, begun where the descent stands at `cur`,
leads where the descent leads, with its outcome, and that as many forms are being read then as
before. -/
structure Retraces (cs : List Char) (cur : Cursor) (x : Walk α) (outcome : Outcome start α) :
    Prop where
  leads : Leads cs cur x (result outcome) (stop outcome)
  depth : (stop outcome).depth = cur.depth

namespace Retraces

variable {start' cur mid : Cursor} {x : Walk α} {f : α → Walk β} {outcome : Outcome start α}

theorem since (h : Retraces cs cur x outcome) (hle : start.rest.length ≤ start'.rest.length) :
    Retraces cs cur x (outcome.since hle) := by
  cases outcome <;> exact ⟨h.leads, h.depth⟩

theorem refuse (refusal : Refusal) :
    Retraces cs cur (Walk.refuse refusal : Walk α) (.error (refusal, cur) : Outcome start α) :=
  ⟨.refuse refusal, rfl⟩

theorem found {a : α} {next : After start} (h : Leads cs cur x (.ok a) next)
    (hdepth : next.1.depth = cur.depth) : Retraces cs cur x (.ok (a, next)) :=
  ⟨h, hdepth⟩

/-- The walk may have gone on before the descent begins. -/
theorem of_leads {a : α} (hx : Leads cs cur x (.ok a) mid) (hdepth : mid.depth = cur.depth)
    {outcome : Outcome start β} (h : Retraces cs mid (f a) outcome) :
    Retraces cs cur (x >>= f) outcome :=
  ⟨hx.bind h.leads, h.depth.trans hdepth⟩

theorem bind (h : Retraces cs cur x outcome) {g : α → (next : After start) → Outcome next.1 β}
    (hf : ∀ a (next : After start), next.1.depth = cur.depth →
      Retraces cs next (f a) (g a next)) :
    Retraces cs cur (x >>= f) (outcome.bind g) := by
  cases outcome with
  | error refused => exact ⟨h.leads.bind_error, h.depth⟩
  | ok found =>
    obtain ⟨a, next⟩ := found
    exact (of_leads h.leads h.depth (hf a next h.depth)).since (Nat.le_of_lt next.2)

/-- What was read can be changed. -/
theorem map (h : Retraces cs cur x outcome) (g : α → β) :
    Retraces cs cur (x >>= fun a => pure (g a)) (outcome.map g) := by
  cases outcome with
  | error refused => exact ⟨h.leads.bind_error, h.depth⟩
  | ok found => exact ⟨h.leads.bind (.pure _), h.depth⟩

end Retraces

end

/-- **A text is walked through as the descent reads it.** -/
theorem text_retraces : ∀ (rounds : Nat) (read : List Char) (cur : Cursor),
    cur.rest.length + 1 ≤ rounds →
      Retraces cs cur (text cs read rounds) (Descent.text read cur)
  | 0, _, cur, h => by omega
  | rounds + 1, read, cur, h => by
    rw [text, Descent.text]
    cases hnext : cur.next? with
    | none => exact .of_leads (.current_none hnext) rfl (.refuse _)
    | some found =>
      obtain ⟨c, next⟩ := found
      have hshorter := next.2
      have hdepth := (Cursor.of_next?_eq_some hnext).2.2
      refine .of_leads (.current_some hnext) rfl (.of_leads (.bump hnext) hdepth ?_)
      by_cases hquote : c = '"'
      · simp only [if_pos hquote]
        exact .found (.pure _) rfl
      by_cases hescape : c = '\\'
      · simp only [if_neg hquote, if_pos hescape]
        cases hnext' : next.1.next? with
        | none => exact .of_leads (.current_none hnext') rfl (.refuse _)
        | some found' =>
          obtain ⟨d, next'⟩ := found'
          have hshorter' := next'.2
          have hdepth' := (Cursor.of_next?_eq_some hnext').2.2
          refine .of_leads (.current_some hnext') rfl (.of_leads (.bump hnext') hdepth' ?_)
          exact (text_retraces rounds (Text.unescape d ++ read) next' (by omega)).since _
      · simp only [if_neg hquote, if_neg hescape]
        exact (text_retraces rounds (c :: read) next (by omega)).since _

/-- Between two bytes where the descent stands, the text can be cut. -/
theorem slice?_of_stands {cur : Cursor} {chars further : List Char}
    (hrest : cur.rest = chars ++ further) {first last : Place} (hfirst : Stands cs cur first)
    {next : Cursor} (hposition : next.position = cur.position + byteLength chars)
    (hlast : Stands cs next last) : slice? first.position last.position cs = some chars := by
  obtain ⟨before, hcs, hbefore⟩ := hfirst.exists_before
  have hbytes : last.position = byteLength before + byteLength chars := by
    rw [hlast.position, hposition, ← hfirst.position, hbefore]
  rw [hcs, hrest, hbefore, hbytes, slice?_byteLength]

/-- **An atom is walked through as the descent reads it.** The characters cut out between its first
byte and its last are those that the walk went past. -/
theorem word_retraces {cur : Cursor} {rounds : Nat} (henough : cur.rest.length + 1 ≤ rounds) :
    Retraces cs cur (word cs rounds) (Descent.word cur) := by
  obtain ⟨chars, hchars⟩ : ∃ chars, cur.rest.takeWhile (!isDelimiter ·) = chars := ⟨_, rfl⟩
  obtain ⟨further, hfurther⟩ : ∃ further, cur.rest.dropWhile (!isDelimiter ·) = further := ⟨_, rfl⟩
  obtain ⟨next, hnext⟩ : ∃ next : Cursor,
      next = { cur with rest := further, position := cur.position + byteLength chars } := ⟨_, rfl⟩
  have hrest : cur.rest = chars ++ further := by
    rw [← hchars, ← hfurther, List.takeWhile_append_dropWhile]
  have hskip : Leads cs cur (skipWord cs rounds) (.ok ()) next := by
    rw [hnext, ← hchars, ← hfurther]
    exact .skipWord cur.depth cur.position cur.rest rounds henough
  have hword : ∀ {result stop},
      Leads cs next (if chars = [] then refuse .expectedAtom else pure (atom chars)) result stop →
        Leads cs cur (word cs rounds) result stop := by
    intro result stop h
    refine .here_bind fun first hfirst => .bind hskip (.here_bind fun last hlast => ?_)
    rw [slice?_of_stands hrest hfirst (by rw [hnext]) hlast]
    exact .bind (.pure chars) h
  by_cases hnil : chars = []
  · have hstay : next = cur := by
      rw [hnext, hnil]
      rw [hnil, List.nil_append] at hrest
      exact hrest ▸ rfl
    rw [Descent.word, dif_pos (hchars.trans hnil)]
    refine ⟨hword ?_, rfl⟩
    rw [if_pos hnil, hstay]
    exact .refuse .expectedAtom
  · rw [Descent.word, dif_neg (hchars ▸ hnil)]
    simp only [hchars, hfurther]
    refine .found (hword ?_) rfl
    rw [if_neg hnil, hnext]
    exact .pure (atom chars)

/-! ## Forms -/

/-- While a form is being read it counts as one more, and afterwards no longer, whatever the
outcome. -/
theorem form_retraces_of_nested {cur : Cursor} {rounds : Nat} (hroom : cur.depth < depthLimit)
    {outcome : Outcome { cur with depth := cur.depth + 1 } Expr}
    (h : Retraces cs { cur with depth := cur.depth + 1 } (nested cs rounds) outcome) :
    Retraces cs cur (form cs (rounds + 1)) (Outcome.leave (cur.depth + 1) outcome) := by
  have hresult : result (Outcome.leave (cur.depth + 1) outcome) = result outcome := by
    cases outcome <;> rfl
  have hstop : stop (Outcome.leave (cur.depth + 1) outcome) =
      { stop outcome with depth := cur.depth } := by
    have hdepth : (stop outcome).depth - 1 = cur.depth := by
      rw [h.depth, Nat.add_sub_cancel]
    rw [← hdepth]
    cases outcome <;> rfl
  refine ⟨?_, by rw [hstop]⟩
  rw [hresult, hstop]
  intro t ht hs
  have henter : Stands cs { cur with depth := cur.depth + 1 } t.enter.here :=
    ⟨hs.exists_before, hs.position, congrArg (· + 1) hs.depth, hroom⟩
  obtain ⟨t', hnested, ht', hsuffix, hs'⟩ :=
    h.leads t.enter (ht.goTo henter.inBounds (Nat.le_refl _)) henter
  have hleave : Stands cs { stop outcome with depth := cur.depth } t'.leave.here := by
    refine ⟨hs'.exists_before, hs'.position, ?_, Nat.le_of_lt hroom⟩
    show t'.here.depth - 1 = cur.depth
    rw [hs'.depth, h.depth]
    simp
  refine ⟨t'.leave, ?_, ht'.goTo hleave.inBounds (Nat.le_refl _), ?_, hleave⟩
  · simp only [form]
    rw [hs.depth, if_neg (by omega), hnested]
    rfl
  · exact (suffix_goTo t _).trans (hsuffix.trans (suffix_goTo t' _))

mutual

/-- **A form is walked through as the descent reads it.** -/
theorem form_retraces : ∀ (rounds : Nat) (cur : Cursor), 3 * cur.rest.length + 4 ≤ rounds →
    Retraces cs cur (form cs rounds) (Descent.form cur)
  | 0, cur, h => by omega
  | rounds + 1, cur, h => by
    rw [Descent.form]
    split
    · next hfull =>
      refine ⟨fun t ht hs => ?_, rfl⟩
      simp only [form]
      rw [hs.depth, if_pos (Int.ofNat_le.mpr hfull)]
      exact Leads.refuse _ t ht hs
    · next hroom =>
      exact form_retraces_of_nested (Nat.not_le.mp hroom)
        (nested_retraces rounds { cur with depth := cur.depth + 1 } (Nat.le_of_succ_le_succ h))

/-- The same once there is room for the form. -/
theorem nested_retraces : ∀ (rounds : Nat) (cur : Cursor), 3 * cur.rest.length + 3 ≤ rounds →
    Retraces cs cur (nested cs rounds) (Descent.nested cur)
  | 0, cur, h => by omega
  | rounds + 1, cur, h => by
    rw [nested, Descent.nested]
    have hskip := cur.length_skip_le
    refine Retraces.since (.of_leads (.skip (by omega)) cur.skips_skip.depth ?_) _
    cases hnext : cur.skip.next? with
    | none => exact .of_leads (.current_none hnext) rfl (.refuse _)
    | some found =>
      obtain ⟨c, next⟩ := found
      have hshorter := next.2
      have hdepth := (Cursor.of_next?_eq_some hnext).2.2
      have hexpect : Descent.expect c cur.skip = .ok ((), next) := by
        simp only [Descent.expect, hnext, if_true]
      refine .of_leads (.current_some hnext) rfl ?_
      by_cases hopen : c = '('
      · subst hopen
        simp only [hexpect, if_true]
        exact .of_leads (.expect hnext) hdepth
          ((items_retraces rounds [] next (by omega)).since (Nat.le_of_lt next.2))
      by_cases hclose : c = ')'
      · simp only [if_neg hopen, if_pos hclose]
        exact .refuse _
      by_cases hquote : c = '\''
      · simp only [if_neg hopen, if_neg hclose, if_pos hquote]
        have hskip' := next.1.length_skip_le
        refine .of_leads (.bump hnext) hdepth (Retraces.since
          (.of_leads (.skip (by omega)) next.1.skips_skip.depth ?_) _)
        split
        · next hleft =>
          rw [if_neg (by simpa using hleft)]
          exact (form_retraces rounds next.1.skip (by omega)).map Expr.quotation
        · next hend =>
          rw [if_pos (by simpa using hend)]
          exact .refuse _
      by_cases htext : c = '"'
      · subst htext
        simp only [hexpect, if_neg hopen, if_neg hclose, if_neg hquote, if_true]
        exact .of_leads (.expect hnext) hdepth
          ((text_retraces rounds [] next (by omega)).since (Nat.le_of_lt next.2))
      · simp only [if_neg hopen, if_neg hclose, if_neg hquote, if_neg htext]
        exact word_retraces (by omega)

/-- The items of a list are walked through as the descent reads them. -/
theorem items_retraces : ∀ (rounds : Nat) (read : List Expr) (cur : Cursor),
    3 * cur.rest.length + 5 ≤ rounds →
      Retraces cs cur (items cs read rounds) (Descent.items read cur)
  | 0, _, cur, h => by omega
  | rounds + 1, read, cur, h => by
    rw [items, Descent.items]
    have hskip := cur.length_skip_le
    refine Retraces.since (.of_leads (.skip (by omega)) cur.skips_skip.depth ?_) _
    cases hnext : cur.skip.next? with
    | none =>
      have hend : ¬(!cur.skip.rest.isEmpty) = true := by
        rw [Cursor.rest_of_next?_eq_none hnext]
        exact Bool.false_ne_true
      rw [if_neg hend]
      exact .refuse _
    | some found =>
      obtain ⟨c, next⟩ := found
      obtain ⟨hrest, -, hdepth⟩ := Cursor.of_next?_eq_some hnext
      have hleft : (!cur.skip.rest.isEmpty) = true := by rw [hrest]; rfl
      rw [if_pos hleft]
      refine .of_leads (.current_some hnext) rfl ?_
      by_cases hclose : c = ')'
      · subst hclose
        simp only [if_true]
        exact .of_leads (.bump hnext) hdepth (.found (.pure _) rfl)
      · simp only [Option.some.injEq, if_neg hclose]
        refine (form_retraces rounds cur.skip (by omega)).bind fun e next hdepth => ?_
        have hshorter := next.2
        exact items_retraces rounds (e :: read) next (by omega)

end

/-! ## Scripts -/

/-- **A script is walked through as the descent reads it.** -/
theorem script_leads : ∀ (rounds : Nat) (read : List Expr) (cur : Cursor),
    3 * cur.rest.length + 5 ≤ rounds →
      ∃ stop, Leads cs cur (script cs read rounds)
          ((Descent.script read cur).mapError refusedAt) stop ∧ stop.depth = cur.depth
  | 0, _, cur, h => by omega
  | rounds + 1, read, cur, h => by
    rw [script, Descent.script]
    have hle := cur.length_skip_le
    have hskip : Leads cs cur (skip cs rounds) (.ok !cur.skip.rest.isEmpty) cur.skip :=
      .skip (by omega)
    have hskipDepth := cur.skips_skip.depth
    split
    · next hend =>
      refine ⟨cur.skip, hskip.bind ?_, hskipDepth⟩
      rw [if_neg (by simp [hend])]
      exact .pure _
    · next hleft =>
      have hform : Retraces cs cur.skip (form cs rounds) (Descent.form cur.skip) :=
        form_retraces rounds cur.skip (by omega)
      suffices h : ∃ stop, Leads cs cur.skip
          (form cs rounds >>= fun e => script cs (e :: read) rounds) _ stop ∧
            stop.depth = cur.skip.depth by
        obtain ⟨stop, hleads, hdepth⟩ := h
        refine ⟨stop, hskip.bind ?_, hdepth.trans hskipDepth⟩
        rw [if_pos (by simpa using hleft)]
        exact hleads
      cases hfound : Descent.form cur.skip with
      | error refused =>
        rw [hfound] at hform
        exact ⟨_, hform.leads.bind_error, hform.depth⟩
      | ok found =>
        obtain ⟨e, next⟩ := found
        rw [hfound] at hform
        have hshorter := next.2
        obtain ⟨stop, hscript, hdepth⟩ := script_leads rounds (e :: read) next.1 (by omega)
        exact ⟨stop, hform.leads.bind hscript, hdepth.trans hform.depth⟩

/-- What the walk ends with where the descent has read a whole script. -/
theorem mapError_refusedAt (source : String) :
    (Descent.script [] { rest := source.toList }).mapError refusedAt =
      (HostScript.readForms source).mapError fun e => .refused (.fault e.fault) e.position := by
  calc (Descent.script [] { rest := source.toList }).mapError refusedAt
      = (Descent.readForms source).mapError fun (refusal, position) =>
          .refused refusal position := by
        rw [Descent.readForms]
        cases Descent.script [] { rest := source.toList } <;> rfl
    _ = _ := by
        rw [Descent.readForms_eq]
        cases HostScript.readForms source <;> rfl

/-! ## Bounds and progress -/

section

variable {α : Type} {cur stop : Cursor} {x : Nat → Walk α} {t : Trail}

/-- As many rounds as any walk through the text may need. -/
def enough (cs : List Char) : Nat := 3 * cs.length + 5

/-- `Completes cs t x` says that with enough rounds the walk `x` through the text `cs` comes to an
end from where the trail `t` stands, always the same: no cut fails on the way, as many forms are
being read afterwards as before, and the walk does not end further back. -/
def Completes (cs : List Char) (t : Trail) (x : Nat → Walk α) : Prop :=
  ∃ result t', (∀ rounds, enough cs ≤ rounds → x rounds t = some (result, t')) ∧
    result ≠ .error .brokenOff ∧ t'.here.depth = t.here.depth ∧
    t.here.position ≤ t'.here.position

/-- `Advances t x` says that if the walk `x` leads from where the trail `t` stands to a value, it
ends further on. -/
def Advances (t : Trail) (x : Nat → Walk α) : Prop :=
  ∀ rounds a t', x rounds t = some (.ok a, t') → t.here.position < t'.here.position

theorem Leads.completes {result : Except Stop α} (h : Leads cs cur (x (enough cs)) result stop)
    (hdepth : stop.depth = cur.depth) (hresult : result ≠ .error .brokenOff)
    (hmore : ∀ {n m}, n ≤ m → Extends (x n) (x m)) (ht : Orderly cs t)
    (hs : Stands cs cur t.here) : Completes cs t x := by
  obtain ⟨t', hx, ht', hsuffix, hs'⟩ := h t ht hs
  refine ⟨result, t', fun rounds hrounds => hmore hrounds t _ hx, hresult, ?_, ?_⟩
  · rw [hs'.depth, hs.depth, hdepth]
  · exact ht'.position_le (hsuffix.subset List.mem_cons_self)

theorem Retraces.completes {start : Cursor} {outcome : Outcome start α}
    (h : Retraces cs cur (x (enough cs)) outcome) (hmore : ∀ {n m}, n ≤ m → Extends (x n) (x m))
    (ht : Orderly cs t) (hs : Stands cs cur t.here) : Completes cs t x := by
  refine h.leads.completes h.depth ?_ hmore ht hs
  cases outcome <;> simp [result, refusedAt]

theorem Retraces.advances {outcome : Outcome cur α} (h : Retraces cs cur (x (enough cs)) outcome)
    (hmore : ∀ {n m}, n ≤ m → Extends (x n) (x m)) (ht : Orderly cs t)
    (hs : Stands cs cur t.here) : Advances t x := by
  intro rounds a t' hx
  obtain ⟨t'', hx', -, -, hs'⟩ := h.leads t ht hs
  -- More rounds change nothing, so the outcome with fewer than enough is the same.
  have hsame := hmore (Nat.le_max_left rounds (enough cs)) t _ hx
  rw [hmore (Nat.le_max_right rounds (enough cs)) t _ hx'] at hsame
  simp only [Option.some.injEq, Prod.mk.injEq] at hsame
  obtain ⟨hresult, rfl⟩ := hsame
  cases outcome with
  | error refused => cases hresult
  | ok found => exact hs.position_lt hs' found.2.2

end

/-- **The walk through a script, well formed or not, comes to its end with what the reader makes of
the script, and never goes back. At each place that it reaches, it stands at the boundary of a
character, no further than the end of the text, with at most 1000 forms being read. From there every
part of the walk comes to an end as well: no cut fails, afterwards as many forms are being read as
before, whether the part was refused or not, and it does not end further back. Where a form is read,
it ends further on. Three rounds for each character and five more are always enough.** -/
theorem readForms_progress (source : String) :
    ∃ trail,
      (∀ rounds, enough source.toList ≤ rounds →
        readForms source rounds = some ((HostScript.readForms source).mapError
          (fun e => .refused (.fault e.fault) e.position), trail)) ∧
      trail.places.Pairwise (fun later earlier => earlier.position ≤ later.position) ∧
      ∀ reached : Trail, reached.places <:+ trail.places →
        String.Pos.Raw.IsValid source ⟨reached.here.position⟩ ∧
        reached.here.position ≤ source.utf8ByteSize ∧
        0 ≤ reached.here.depth ∧ reached.here.depth ≤ 1000 ∧
        let cs := source.toList
        Completes cs reached (form cs) ∧ Advances reached (form cs) ∧
          Completes cs reached (nested cs) ∧
          (∀ read, Completes cs reached (items cs read)) ∧
          (∀ read, Completes cs reached (text cs read)) ∧
          Completes cs reached (word cs) ∧ Completes cs reached (skip cs) ∧
          ∀ read, Completes cs reached (script cs read) := by
  obtain ⟨cs, hsource⟩ : ∃ cs, source.toList = cs := ⟨_, rfl⟩
  have hstart : Stands cs { rest := cs } ({} : Trail).here :=
    ⟨⟨[], rfl, rfl⟩, rfl, rfl, Nat.zero_le _⟩
  obtain ⟨stop, hleads, -⟩ := script_leads (enough cs) [] { rest := cs } (Nat.le_refl _)
  obtain ⟨trail, hwalk, htrail, -, -⟩ := hleads {} orderly_start hstart
  have hread := mapError_refusedAt source
  rw [hsource] at hread ⊢
  rw [hread] at hwalk
  refine ⟨trail, fun rounds hrounds => ?_, htrail.sorted, fun reached hreached => ?_⟩
  · rw [readForms, hsource]
    exact Extends.script [] hrounds {} _ hwalk
  have ht := htrail.of_suffix hreached
  obtain ⟨cur, hs⟩ := ht.here.exists_stands
  obtain ⟨before, hcs, hposition⟩ := hs.exists_before
  have henough : 3 * cur.rest.length + 5 ≤ enough cs := by
    rw [enough, hcs, List.length_append]
    omega
  refine ⟨hposition ▸ isValid_byteLength (hsource.trans hcs), ?_, ht.here.depth_nonneg,
    ht.here.depth_le, ?_, ?_, ?_, fun read => ?_, fun read => ?_, ?_, ?_, fun read => ?_⟩
  · rw [hposition, ← byteLength_toList, hsource, hcs, byteLength_append]
    exact Nat.le_add_right _ _
  · exact (form_retraces _ cur (by omega)).completes Extends.form ht hs
  · exact (form_retraces _ cur (by omega)).advances Extends.form ht hs
  · exact (nested_retraces _ cur (by omega)).completes Extends.nested ht hs
  · exact (items_retraces _ read cur henough).completes (Extends.items read) ht hs
  · exact (text_retraces _ read cur (by omega)).completes (Extends.text read) ht hs
  · exact (word_retraces (by omega)).completes Extends.word ht hs
  · exact (Leads.skip (by omega)).completes cur.skips_skip.depth nofun Extends.skip ht hs
  · obtain ⟨stop, hleads, hdepth⟩ := script_leads _ read cur henough
    refine hleads.completes hdepth ?_ (Extends.script read) ht hs
    rcases Descent.script read cur with ⟨refusal, stop⟩ | forms <;> exact nofun

/-- The script `('é` ends inside a list, at its byte 4. Up to three forms are being read on the way,
and none is in the end. -/
example :
    (readForms (String.ofList ['(', '\'', 'é']) 14).map
        (fun (_, trail) => (trail.here.position, trail.places.map (·.depth))) =
      some (4, [0, 1, 2, 3, 3, 2, 2, 1, 1, 0]) := by
  rw [readForms, String.toList_ofList]
  decide

end HostScript.Reader.Walk
