import Mathlib.Data.List.Induction
import NestWeaver.Engine.JobQueue

/-!
# Fencing

Only a claim sets a row running, and it stamps a token of its own.  So a running row carries the
token of its latest claim and has run since, and a worker with any other token changes nothing.
-/

set_option linter.all false

namespace NestWeaver
namespace JobQueue

open Transition

variable {t t' : Table} {op : Op} {ops : List Op} {row row' : Row} {id : ℕ} {token : String}

/-! ## What a statement does to a row -/

lemma mem_update : row' ∈ (t.update op).rows ↔ ∃ row ∈ t.rows, row.set op = row' :=
  List.mem_map

/-- A row after a statement was there before, or was inserted. -/
lemma step_row (h : step t op = some t') (hrow : row' ∈ t'.rows) :
    (∃ row ∈ t.rows, row.set op = row') ∨
      ∃ now repoUrl trigger branch, op = .upsert now row'.repoId repoUrl trigger branch ∧
        row'.id = t.nextId ∧ row'.job = .new now repoUrl trigger branch ∧
        ∀ row ∈ t.rows, row.repoId ≠ row'.repoId := by
  have hupdate : ∀ t'', t.update op = t'' → row' ∈ t''.rows → ∃ row ∈ t.rows, row.set op = row' := by
    rintro t'' rfl hmem
    exact mem_update.mp hmem
  cases op with
  | upsert now repoId repoUrl trigger branch =>
    rw [step] at h
    split_ifs at h with habsent
    · obtain rfl := Option.some.inj h
      rcases List.mem_append.mp hrow with hmem | hmem
      · -- the rows that were there stay
        have hne := habsent row' hmem
        exact .inl ⟨row', hmem, by simp [Row.set, Op.change, hne]⟩
      · obtain rfl := List.mem_singleton.mp hmem
        exact .inr ⟨now, repoUrl, trigger, branch, rfl, rfl, rfl, habsent⟩
    · exact .inl (hupdate _ (Option.some.inj h) hrow)
  | claim now debounceSecs leaseSecs id repoId token =>
    rw [step] at h
    split_ifs at h
    exact .inl (hupdate _ (Option.some.inj h) hrow)
  | dismissDeadLetter id =>
    obtain rfl := Option.some.inj h
    exact .inl ⟨row', (List.mem_filter.mp hrow).1, rfl⟩
  | _ => exact .inl (hupdate _ (Option.some.inj h) hrow)

/-- A row stays in the table unless it is dismissed. -/
lemma step_keeps (h : step t op = some t') (hrow : row ∈ t.rows) :
    row.set op ∈ t'.rows ∨ (op = .dismissDeadLetter row.id ∧ row.job.status = .deadLetter) := by
  have hupdate : ∀ t'', t.update op = t'' → row.set op ∈ t''.rows := by
    rintro t'' rfl
    exact mem_update.mpr ⟨row, hrow, rfl⟩
  cases op with
  | upsert now repoId repoUrl trigger branch =>
    rw [step] at h
    split_ifs at h with habsent
    · obtain rfl := Option.some.inj h
      have hset : row.set (.upsert now repoId repoUrl trigger branch) = row := by
        simp [Row.set, Op.change, habsent row hrow]
      rw [hset]
      exact .inl (List.mem_append_left _ hrow)
    · exact .inl (hupdate _ (Option.some.inj h))
  | claim now debounceSecs leaseSecs id repoId token =>
    rw [step] at h
    split_ifs at h
    exact .inl (hupdate _ (Option.some.inj h))
  | dismissDeadLetter id =>
    obtain rfl := Option.some.inj h
    by_cases hdismissed : row.id = id ∧ row.job.status = .deadLetter
    · exact .inr ⟨by rw [hdismissed.1], hdismissed.2⟩
    · have hset : row.set (.dismissDeadLetter id) = row := rfl
      rw [hset]
      exact .inl (List.mem_filter.mpr ⟨hrow, decide_eq_true hdismissed⟩)
  | _ => exact .inl (hupdate _ (Option.some.inj h))

/-! ## Running rows -/

/-- The statement claims the row and mints the token. -/
def Op.ClaimsRow (id : ℕ) (token : String) : Op → Prop
  | .claim _ _ _ id' _ token' => id' = id ∧ token' = token
  | _ => False

/-- The statement ends a claim, with its token. -/
def Op.Carries (token : String) : Op → Prop
  | .complete _ _ _ claimedBy => claimedBy = some token
  | .fail _ _ claimedBy _ _ => claimedBy = some token
  | .defer _ _ claimedBy => claimedBy = some token
  | _ => False

lemma fail_status_ne (now : ℤ) (error : String) (isPoison : Bool) (job : Job) :
    (job.fail now error isPoison).status ≠ .running := by
  unfold Job.fail
  split_ifs
  · exact nofun
  · exact nofun

lemma reap_status_ne (clock : ℤ) (job : Job) : (job.reap clock).status ≠ .running := by
  unfold Job.reap
  dsimp only
  split_ifs
  · exact nofun
  · exact nofun

/-- A row runs after a statement only if the statement claims it, or it ran before under the same
claim. -/
lemma set_running (h : (row.set op).job.status = .running) :
    (∃ token, op.ClaimsRow row.id token ∧ (row.set op).job.claimedBy = some token) ∨
      (row.job.status = .running ∧ (row.set op).job.claimedBy = row.job.claimedBy ∧
        ∀ token, ¬op.ClaimsRow row.id token) := by
  cases op with
  | claim now debounceSecs leaseSecs id repoId token =>
    by_cases hid : row.id = id
    · exact .inl ⟨token, ⟨hid.symm, rfl⟩, by simp [Row.set, Op.change, hid, Job.claim]⟩
    · have hchange : (row.set (.claim now debounceSecs leaseSecs id repoId token)).job = row.job := by
        simp [Row.set, Op.change, hid]
      rw [hchange] at h
      exact .inr ⟨h, by rw [hchange], fun token' hclaims => hid hclaims.1.symm⟩
  | upsert now repoId repoUrl trigger branch =>
    refine .inr ?_
    simp only [Row.set, Op.change] at h ⊢
    split_ifs at h ⊢
    · refine ⟨?_, rfl, fun _ => id⟩
      simp only [Job.upsert] at h
      split_ifs at h
      exact h
    · exact ⟨h, rfl, fun _ => id⟩
  | fail now id' claimedBy error isPoison =>
    refine .inr ?_
    simp only [Row.set, Op.change] at h ⊢
    split_ifs at h ⊢
    · exact absurd h (fail_status_ne now error isPoison row.job)
    · exact ⟨h, rfl, fun _ => id⟩
  | reapExpiredLeases clock now =>
    refine .inr ?_
    simp only [Row.set, Op.change] at h ⊢
    split_ifs at h ⊢
    · exact absurd h (reap_status_ne clock row.job)
    · exact ⟨h, rfl, fun _ => id⟩
  | dismissDeadLetter id' => exact .inr ⟨h, rfl, fun _ => id⟩
  | _ =>
    -- the other statements do not leave a row that they match running
    refine .inr ?_
    simp only [Row.set, Op.change] at h ⊢
    split_ifs at h ⊢ <;>
      first
        | exact ⟨h, rfl, fun _ => id⟩
        | cases h

/-! ## The claim that a row runs under -/

/-- The row runs under the claim with this token. -/
def Table.Holds (t : Table) (id : ℕ) (token : String) : Prop :=
  ∃ row ∈ t.rows, row.Holds id (some token)

/-- The claim with this token is the latest of the row, and the row has run under it ever since. -/
def HeldSince (ops : List Op) (id : ℕ) (token : String) : Prop :=
  ∃ (pre : List Op) (claim : Op) (post : List Op), ops = pre ++ claim :: post ∧ claim.ClaimsRow id token ∧
    (∀ op ∈ post, ∀ token', ¬op.ClaimsRow id token') ∧
    ∀ front, front <+: post → ∃ u, run step .empty (pre ++ claim :: front) = some u ∧ u.Holds id token

/-- The tokens that were minted, in order. -/
def minted (ops : List Op) : List String :=
  ops.filterMap fun
    | .claim _ _ _ _ _ token => some token
    | _ => none

lemma HeldSince.concat (h : HeldSince ops id token) (hop : ∀ token', ¬op.ClaimsRow id token')
    (hrun : run step .empty (ops ++ [op]) = some t) (ht : t.Holds id token) :
    HeldSince (ops ++ [op]) id token := by
  obtain ⟨pre, claim, post, rfl, hclaim, hlatest, hheld⟩ := h
  refine ⟨pre, claim, post ++ [op], by simp, hclaim, fun op' hmem => ?_, fun front hfront => ?_⟩
  · rcases List.mem_append.mp hmem with hmem | hmem
    · exact hlatest op' hmem
    · obtain rfl := List.mem_singleton.mp hmem
      exact hop
  · rcases List.prefix_concat_iff.mp hfront with rfl | hfront
    · exact ⟨t, by simpa using hrun, ht⟩
    · exact hheld front hfront

/-- **The invariant of fencing.**  A row that runs has run under its latest claim. -/
lemma heldSince_of_run (hrun : run step .empty ops = some t) (hrow : row ∈ t.rows)
    (hrunning : row.job.status = .running) :
    ∃ token, row.job.claimedBy = some token ∧ HeldSince ops row.id token := by
  induction ops using List.reverseRecOn generalizing t row with
  | nil =>
    obtain rfl : Table.empty = t := Option.some.inj hrun
    cases hrow
  | append_singleton ops op ih =>
    obtain ⟨u, hu, hstep⟩ := run_concat_eq_some.mp hrun
    obtain ⟨old, hold, rfl⟩ | ⟨now, repoUrl, trigger, branch, -, -, hnew, -⟩ := step_row hstep hrow
    · obtain ⟨token, hclaims, htoken⟩ | ⟨hbefore, hsame, hother⟩ := set_running hrunning
      · refine ⟨token, htoken, ops, op, [], rfl, hclaims, nofun, fun front hfront => ?_⟩
        obtain rfl := List.prefix_nil.mp hfront
        exact ⟨t, hrun, _, hrow, rfl, hrunning, htoken⟩
      · obtain ⟨token, htoken, hheld⟩ := ih hu hold hbefore
        rw [hsame]
        exact ⟨token, htoken, hheld.concat hother hrun ⟨_, hrow, rfl, hrunning, hsame.trans htoken⟩⟩
    · -- an inserted row is pending
      rw [hnew] at hrunning
      cases hrunning

/-- A statement that carries a token changes the rows that run under it only. -/
lemma holds_of_changed (hop : op.Carries token) (hchanged : op.change row ≠ row.job) :
    row.Holds row.id (some token) := by
  cases op with
  | complete now id repoId claimedBy =>
    obtain rfl : claimedBy = some token := hop
    by_contra hnot
    refine hchanged (if_neg ?_)
    rintro ⟨⟨-, hrunning, hclaimed⟩, -⟩
    exact hnot ⟨rfl, hrunning, hclaimed⟩
  | fail now id claimedBy error isPoison =>
    obtain rfl : claimedBy = some token := hop
    by_contra hnot
    refine hchanged (if_neg ?_)
    rintro ⟨-, hrunning, hclaimed⟩
    exact hnot ⟨rfl, hrunning, hclaimed⟩
  | defer now id claimedBy =>
    obtain rfl : claimedBy = some token := hop
    by_contra hnot
    refine hchanged (if_neg ?_)
    rintro ⟨-, hrunning, hclaimed⟩
    exact hnot ⟨rfl, hrunning, hclaimed⟩
  | _ => cases hop

lemma step_of_carries (hop : op.Carries token) : step t op = some (t.update op) := by
  cases op with
  | complete => rfl
  | fail => rfl
  | defer => rfl
  | _ => cases hop

lemma Table.ext_rows {t t' : Table} (h : t.rows = t'.rows) : t = t' := by
  cases t
  cases t'
  cases h
  rfl

/-- The statement changes a row of this key. -/
def Changes (t : Table) (op : Op) (id : ℕ) : Prop :=
  ∃ t', step t op = some t' ∧ ∃ row ∈ t.rows, row.id = id ∧ row ∉ t'.rows

lemma Changes.holds (h : Changes t op id) (hop : op.Carries token) : t.Holds id token := by
  obtain ⟨t', hstep, row, hrow, rfl, hgone⟩ := h
  rw [step_of_carries hop] at hstep
  obtain rfl := Option.some.inj hstep
  refine ⟨row, hrow, holds_of_changed hop fun hsame => hgone (mem_update.mpr ⟨row, hrow, ?_⟩)⟩
  rw [Row.set, hsame]

/-- A statement that changes no row leaves the table as it is. -/
lemma step_eq_self (hop : op.Carries token) (h : ∀ id, ¬Changes t op id) : step t op = some t := by
  have hsame : ∀ row ∈ t.rows, row.set op = row := by
    intro row hrow
    by_contra hne
    refine h row.id ⟨t.update op, step_of_carries hop, row, hrow, rfl, fun hmem => hne ?_⟩
    obtain ⟨other, hother, heq⟩ := mem_update.mp hmem
    have hid : other.id = row.id := by
      rw [← heq]
      rfl
    obtain rfl := List.inj_on_of_nodup_map t.ids hother hrow hid
    exact heq
  rw [step_of_carries hop]
  refine congrArg some (Table.ext_rows ?_)
  exact (List.map_congr_left hsame).trans (List.map_id _)

/-- A token belongs to one claim. -/
lemma split_unique {pre pre' post post' : List Op} {claim claim' : Op} {id' : ℕ}
    (h : pre ++ claim :: post = pre' ++ claim' :: post')
    (hfresh : (minted (pre ++ claim :: post)).Nodup) (hclaim : claim.ClaimsRow id token)
    (hclaim' : claim'.ClaimsRow id' token) : pre = pre' ∧ claim = claim' ∧ post = post' := by
  have hmem : ∀ {c : Op} {i : ℕ} {l : List Op}, c.ClaimsRow i token → c ∈ l → token ∈ minted l := by
    intro c i l hc hl
    cases c with
    | claim => exact List.mem_filterMap.mpr ⟨_, hl, congrArg some hc.2⟩
    | _ => cases hc
  have hdisjoint : ∀ (front back : List Op) {c c' : Op} {i i' : ℕ}, (minted (front ++ back)).Nodup →
      c.ClaimsRow i token → c'.ClaimsRow i' token → c ∈ front → c' ∉ back := by
    intro front back c c' i i' hnodup hc hc' hfront hback
    rw [minted, List.filterMap_append] at hnodup
    exact (List.nodup_append.mp hnodup).2.2 _ (hmem hc hfront) _ (hmem hc' hback) rfl
  rcases List.append_eq_append_iff.mp h with ⟨mid, hpre, hrest⟩ | ⟨mid, hpre, hrest⟩
  · cases mid with
    | nil =>
      obtain ⟨rfl, rfl⟩ := List.cons.inj hrest
      exact ⟨by simpa using hpre.symm, rfl, rfl⟩
    | cons c mid =>
      obtain ⟨rfl, rfl⟩ := List.cons.inj hrest
      have hnot := hdisjoint (pre ++ [claim]) (mid ++ claim' :: post')
        (by simpa using hfresh) hclaim hclaim' (by simp)
      exact absurd (by simp) hnot
  · cases mid with
    | nil =>
      obtain ⟨rfl, rfl⟩ := List.cons.inj hrest
      exact ⟨by simpa using hpre, rfl, rfl⟩
    | cons c mid =>
      obtain ⟨rfl, rfl⟩ := List.cons.inj hrest
      have hnot := hdisjoint (pre' ++ [claim']) (mid ++ claim :: post)
        (by rw [h] at hfresh; simpa using hfresh) hclaim' hclaim (by simp)
      exact absurd (by simp) hnot

/-- **Fencing.**  In every run with fresh tokens, a statement that carries a token changes a row only
if the row has run since the claim with this token, which is its latest; so the tokens of all claims
that were interrupted or replaced are void, and of the tokens that are out one may still count. -/
theorem fencing (hrun : run step .empty ops = some t) (hfresh : (minted ops).Nodup) :
    (∀ op token id, op.Carries token → Changes t op id → HeldSince ops id token) ∧
    (∀ (pre : List Op) (claim : Op) post id token, ops = pre ++ claim :: post → claim.ClaimsRow id token →
      (∃ front u, front <+: post ∧ run step .empty (pre ++ claim :: front) = some u ∧
        ¬u.Holds id token) →
      ∀ op, op.Carries token → step t op = some t) ∧
    (∀ op op' token token' id, op.Carries token → op'.Carries token' → Changes t op id →
      Changes t op' id → token = token') := by
  have hheld : ∀ op token id, op.Carries token → Changes t op id → HeldSince ops id token := by
    intro op token id hop hchanges
    obtain ⟨row, hrow, rfl, hrunning, hclaimed⟩ := hchanges.holds hop
    obtain ⟨token', htoken', hheld⟩ := heldSince_of_run hrun hrow hrunning
    obtain rfl := Option.some.inj (hclaimed.symm.trans htoken')
    exact hheld
  refine ⟨hheld, ?_, ?_⟩
  · rintro pre claim post id token rfl hclaim ⟨front, u, hfront, hu, hinterrupted⟩ op hop
    refine step_eq_self hop fun id' hchanges => hinterrupted ?_
    obtain ⟨pre', claim', post', heq, hclaim', -, hall⟩ := hheld op token id' hop hchanges
    obtain ⟨rfl, rfl, rfl⟩ := split_unique heq hfresh hclaim hclaim'
    obtain ⟨u', hu', hholds⟩ := hall front hfront
    obtain rfl := Option.some.inj (hu.symm.trans hu')
    have hid : id = id' := by
      cases claim with
      | claim => exact hclaim.1.symm.trans hclaim'.1
      | _ => cases hclaim
    exact hid ▸ hholds
  · intro op op' token token' id hop hop' hchanges hchanges'
    obtain ⟨row, hrow, hid, -, hclaimed⟩ := hchanges.holds hop
    obtain ⟨row', hrow', hid', -, hclaimed'⟩ := hchanges'.holds hop'
    obtain rfl := List.inj_on_of_nodup_map t.ids hrow hrow' (hid.trans hid'.symm)
    exact Option.some.inj (hclaimed.symm.trans hclaimed')

/-- A claim that a restart took back, and a second claim of the row. -/
def recoveredRun : List Op :=
  [.upsert 0 "repo" "url" .webhook none, .claim 1 0 1800 1 "repo" "first",
    .recoverAllRunningAtStartup 2, .claim 3 0 1800 1 "repo" "second"]

/-- The worker of the first claim can do nothing more. -/
theorem fencing_recoveredRun : ∃ t, run step .empty recoveredRun = some t ∧
    ∀ op, op.Carries "first" → step t op = some t := by
  have hsome : (run step .empty recoveredRun).isSome := by decide
  have hrecovered : (run step .empty (recoveredRun.take 3)).any
      fun u => ∀ row ∈ u.rows, ¬row.Holds 1 (some "first") := by decide
  obtain ⟨t, ht⟩ := Option.isSome_iff_exists.mp hsome
  obtain ⟨u, hu, hnot⟩ := (Option.any_eq_true _ _).mp hrecovered
  refine ⟨t, ht, (fencing ht (by decide)).2.1 (recoveredRun.take 1) _ (recoveredRun.drop 2) 1 "first"
    rfl ⟨rfl, rfl⟩ ⟨[.recoverAllRunningAtStartup 2], u, by decide, hu, ?_⟩⟩
  rintro ⟨row, hrow, hholds⟩
  exact of_decide_eq_true hnot row hrow hholds

end JobQueue
end NestWeaver
