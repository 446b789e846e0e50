import NestWeaver.Engine.JobQueueFencing

/-!
# Triggers that arrive while a job runs

A trigger for a running row sets a flag that the worker looks at after a success.  The other ways a
run can end either make the row pending, which serves the trigger too, or dead-letter it, and then
the flag is never looked at.  No trigger is lost exactly as long as no row is dead-lettered with the
flag set (`noLostTrigger_iff`).
-/

set_option linter.all false

namespace NestWeaver
namespace JobQueue

open Transition

variable {t t' : Table} {op : Op} {ops : List Op} {row row' : Row} {repoId : String}

/-! ## What is to hold -/

def Op.Triggers (repoId : String) : Op → Prop
  | .upsert _ repoId' _ _ _ => repoId' = repoId
  | _ => False

def Op.ClaimsRepo (repoId : String) : Op → Prop
  | .claim _ _ _ _ repoId' _ => repoId' = repoId
  | _ => False

def Op.Cancels (repoId : String) : Op → Prop
  | .cancelRepo _ repoId' => repoId' = repoId
  | _ => False

/-- A trigger for the repository arrived after the latest claim, and was not cancelled. -/
def Waiting (ops : List Op) (repoId : String) : Prop :=
  ∃ (pre : List Op) (trigger : Op) (post : List Op), ops = pre ++ trigger :: post ∧ trigger.Triggers repoId ∧
    ∀ op ∈ post, ¬op.ClaimsRepo repoId ∧ ¬op.Cancels repoId

/-- The row will be claimed again, or its worker will make it pending when it succeeds. -/
def Job.Carries (job : Job) : Prop :=
  job.status = .pending ∨ (job.status = .running ∧ job.requeueNeeded = true) ∨
    (job.status = .succeeded ∧ job.requeueNeeded = true)

def NoLostTrigger (ops : List Op) (t : Table) : Prop :=
  ∀ repoId, Waiting ops repoId → ∃ row ∈ t.rows, row.repoId = repoId ∧ row.job.Carries

/-- The statement dead-letters the row. -/
def Op.Buries (row : Row) : Op → Prop
  | .fail _ id claimedBy _ isPoison =>
    row.Holds id claimedBy ∧ (isPoison = true ∨ row.job.exhausted)
  | .reapExpiredLeases _ now => row.job.Expired now ∧ row.job.exhausted
  | _ => False

instance (row : Row) : (op : Op) → Decidable (op.Buries row)
  | .fail _ id claimedBy _ isPoison =>
    inferInstanceAs (Decidable (row.Holds id claimedBy ∧ (isPoison = true ∨ row.job.exhausted)))
  | .reapExpiredLeases _ now => inferInstanceAs (Decidable (row.job.Expired now ∧ row.job.exhausted))
  | .upsert .. | .claim .. | .complete .. | .requeueIfStale .. | .cancelRepo .. | .setBranch ..
  | .clearBranch .. | .defer .. | .recoverStale .. | .recoverAllRunningAtStartup ..
  | .resetDeadLetter .. | .resetDeadLetterById .. | .dismissDeadLetter .. => instDecidableFalse

/-- No row that was triggered while it ran is dead-lettered. -/
def KeepsTrigger (t : Table) (op : Op) : Prop :=
  ∀ row ∈ t.rows, row.job.requeueNeeded = true → ¬op.Buries row

instance (t : Table) (op : Op) : Decidable (KeepsTrigger t op) :=
  inferInstanceAs (Decidable (∀ row ∈ t.rows, _))

/-! ## One statement -/

lemma Waiting.concat (h : Waiting ops repoId) (hclaims : ¬op.ClaimsRepo repoId)
    (hcancels : ¬op.Cancels repoId) : Waiting (ops ++ [op]) repoId := by
  obtain ⟨pre, trigger, post, rfl, htrigger, hpost⟩ := h
  refine ⟨pre, trigger, post ++ [op], by simp, htrigger, fun op' hmem => ?_⟩
  rcases List.mem_append.mp hmem with hmem | hmem
  · exact hpost op' hmem
  · obtain rfl := List.mem_singleton.mp hmem
    exact ⟨hclaims, hcancels⟩

/-- A trigger that still waits is the last statement, or was waiting before it. -/
lemma Waiting.of_concat (h : Waiting (ops ++ [op]) repoId) :
    op.Triggers repoId ∨ (Waiting ops repoId ∧ ¬op.ClaimsRepo repoId ∧ ¬op.Cancels repoId) := by
  obtain ⟨pre, trigger, post, heq, htrigger, hpost⟩ := h
  rcases List.eq_nil_or_concat post with rfl | ⟨post, last, rfl⟩
  · obtain ⟨-, hop⟩ := List.append_inj' heq rfl
    exact .inl ((List.head_eq_of_cons_eq hop) ▸ htrigger)
  · rw [List.concat_eq_append, ← List.cons_append, ← List.append_assoc] at heq
    obtain ⟨hops, hop⟩ := List.append_inj' heq rfl
    obtain rfl := List.head_eq_of_cons_eq hop
    refine .inr ⟨⟨pre, trigger, post, hops, htrigger, fun op' hmem => hpost op' ?_⟩, hpost op ?_⟩
    · rw [List.concat_eq_append]
      exact List.mem_append_left _ hmem
    · rw [List.concat_eq_append]
      exact List.mem_append_right _ (List.mem_singleton_self _)

lemma upsert_carries (now : ℤ) (trigger : JobTrigger) (branch : Option String) (job : Job) :
    (job.upsert now trigger branch).Carries := by
  unfold Job.Carries Job.upsert
  cases hstatus : job.status <;> simp

/-- A claim of a row is a claim of its repository. -/
lemma claimsRepo_of_step (h : step t op = some t') (hrow : row ∈ t.rows) {token : String}
    (hclaims : op.ClaimsRow row.id token) : op.ClaimsRepo row.repoId := by
  cases op with
  | claim now debounceSecs leaseSecs id repoId token =>
    obtain ⟨rfl, -⟩ := hclaims
    rw [step] at h
    split_ifs at h with hnext
    obtain ⟨row', hrow', ⟨hid, hrepo, -⟩, -⟩ := hnext
    obtain rfl := List.inj_on_of_nodup_map t.ids hrow' hrow hid
    exact hrepo.symm
  | _ => cases hclaims

/-- A claim of a repository is a claim of its row. -/
lemma claimsRow_of_step (h : step t op = some t') (hrow : row ∈ t.rows)
    (hclaims : op.ClaimsRepo row.repoId) : ∃ token, op.ClaimsRow row.id token := by
  cases op with
  | claim now debounceSecs leaseSecs id repoId token =>
    obtain rfl : repoId = row.repoId := hclaims
    rw [step] at h
    split_ifs at h with hnext
    obtain ⟨row', hrow', ⟨hid, hrepo, -⟩, -⟩ := hnext
    obtain rfl := List.inj_on_of_nodup_map t.repos hrow' hrow hrepo
    exact ⟨token, hid.symm, rfl⟩
  | _ => cases hclaims

/-- Only a trigger sets the flag. -/
lemma flag_of_set (htriggers : ¬op.Triggers row.repoId) (h : (row.set op).job.requeueNeeded = true) :
    row.job.requeueNeeded = true := by
  cases op with
  | upsert now repoId repoUrl trigger branch =>
    have hrepo : row.repoId ≠ repoId := fun heq => htriggers heq.symm
    simpa only [Row.set, Op.change, if_neg hrepo] using h
  | fail now id claimedBy error isPoison =>
    simp only [Row.set, Op.change, Job.fail] at h
    split_ifs at h <;> exact h
  | dismissDeadLetter id => exact h
  | _ =>
    simp only [Row.set, Op.change] at h
    split_ifs at h
    all_goals first
      | exact h
      | cases h

/-- What carries a trigger keeps it, unless the row is claimed, cancelled or dead-lettered. -/
lemma set_carries (hcarries : row.job.Carries) (hclaims : ∀ token, ¬op.ClaimsRow row.id token)
    (hcancels : ¬op.Cancels row.repoId) (hburies : row.job.requeueNeeded = true → ¬op.Buries row) :
    (row.set op).job.Carries := by
  cases op with
  | upsert now repoId repoUrl trigger branch =>
    simp only [Row.set, Op.change]
    split_ifs
    · exact upsert_carries now trigger branch row.job
    · exact hcarries
  | claim now debounceSecs leaseSecs id repoId token =>
    have hid : row.id ≠ id := fun heq => hclaims token ⟨heq.symm, rfl⟩
    simp only [Row.set, Op.change, if_neg hid]
    exact hcarries
  | complete now id repoId claimedBy =>
    simp only [Row.set, Op.change]
    split_ifs with hends
    · -- a running row carries the flag
      obtain hpending | ⟨-, hflag⟩ | ⟨hsucceeded, -⟩ := hcarries
      · rw [hends.1.2.1] at hpending
        cases hpending
      · exact .inr (.inr ⟨rfl, hflag⟩)
      · rw [hends.1.2.1] at hsucceeded
        cases hsucceeded
    · exact hcarries
  | cancelRepo now repoId =>
    have hrepo : row.repoId ≠ repoId := fun heq => hcancels heq.symm
    simp only [Row.set, Op.change, hrepo, false_and, if_false]
    exact hcarries
  | fail now id claimedBy error isPoison =>
    simp only [Row.set, Op.change]
    split_ifs with hends
    · obtain hpending | ⟨-, hflag⟩ | ⟨hsucceeded, -⟩ := hcarries
      · rw [hends.2.1] at hpending
        cases hpending
      · have hretry : ¬(isPoison = true ∨ row.job.exhausted) := fun hburied =>
          hburies hflag ⟨hends, hburied⟩
        rw [Job.fail, if_neg hretry]
        exact .inl rfl
      · rw [hends.2.1] at hsucceeded
        cases hsucceeded
    · exact hcarries
  | reapExpiredLeases clock now =>
    simp only [Row.set, Op.change]
    split_ifs with hends
    · obtain hpending | ⟨-, hflag⟩ | ⟨hsucceeded, -⟩ := hcarries
      · rw [hends.1] at hpending
        cases hpending
      · have hretry : ¬row.job.exhausted := fun hburied => hburies hflag ⟨hends, hburied⟩
        exact .inl (if_neg hretry)
      · rw [hends.1] at hsucceeded
        cases hsucceeded
    · exact hcarries
  | dismissDeadLetter id => exact hcarries
  | _ =>
    -- the other statements make the row pending, or leave its status and its flag
    simp only [Row.set, Op.change]
    split_ifs
    all_goals first
      | exact hcarries
      | exact .inl rfl

lemma set_status_of_buries (h : op.Buries row) : (row.set op).job.status = .deadLetter := by
  cases op with
  | fail now id claimedBy error isPoison =>
    obtain ⟨hends, hburied⟩ := h
    simp only [Row.set, Op.change, if_pos hends, Job.fail, if_pos hburied]
  | reapExpiredLeases clock now =>
    obtain ⟨hends, hburied⟩ := h
    simp only [Row.set, Op.change, if_pos hends, Job.reap, if_pos hburied]
  | _ => cases h

/-! ## Runs -/

/-- After a trigger the row of the repository carries it. -/
lemma carries_of_triggers (h : step t op = some t') (htriggers : op.Triggers repoId) :
    ∃ row ∈ t'.rows, row.repoId = repoId ∧ row.job.Carries := by
  cases op with
  | upsert now repoId' repoUrl trigger branch =>
    obtain rfl : repoId' = repoId := htriggers
    rw [step] at h
    split_ifs at h with habsent
    · obtain rfl := Option.some.inj h
      exact ⟨_, List.mem_append_right _ (List.mem_singleton_self _), rfl, .inl rfl⟩
    · obtain rfl := Option.some.inj h
      push Not at habsent
      obtain ⟨row, hrow, hrepo⟩ := habsent
      refine ⟨_, mem_update.mpr ⟨row, hrow, rfl⟩, hrepo, ?_⟩
      simp only [Row.set, Op.change, if_pos hrepo]
      exact upsert_carries now trigger branch row.job
  | _ => cases htriggers

/-- One statement that dead-letters no triggered row loses no trigger. -/
lemma NoLostTrigger.step (h : NoLostTrigger ops t) (hstep : JobQueue.step t op = some t')
    (hkeeps : KeepsTrigger t op) : NoLostTrigger (ops ++ [op]) t' := by
  intro repoId hwaiting
  obtain htriggers | ⟨hbefore, hclaims, hcancels⟩ := hwaiting.of_concat
  · exact carries_of_triggers hstep htriggers
  · obtain ⟨row, hrow, rfl, hcarries⟩ := h repoId hbefore
    obtain hkept | ⟨-, hdead⟩ := step_keeps hstep hrow
    · refine ⟨_, hkept, rfl, set_carries hcarries (fun token hclaimed => ?_) hcancels
        (hkeeps row hrow)⟩
      exact hclaims (claimsRepo_of_step hstep hrow hclaimed)
    · -- a dead letter carries nothing
      obtain hpending | ⟨hrunning, -⟩ | ⟨hsucceeded, -⟩ := hcarries
      · rw [hdead] at hpending
        cases hpending
      · rw [hdead] at hrunning
        cases hrunning
      · rw [hdead] at hsucceeded
        cases hsucceeded

lemma noLostTrigger_of_guarded (hrun : run (guarded step KeepsTrigger) .empty ops = some t) :
    NoLostTrigger ops t := by
  induction ops using List.reverseRecOn generalizing t with
  | nil =>
    rintro repoId ⟨pre, trigger, post, heq, -⟩
    simp at heq
  | append_singleton ops op ih =>
    obtain ⟨u, hu, hstep⟩ := run_concat_eq_some.mp hrun
    obtain ⟨hkeeps, hstep⟩ := guarded_eq_some.mp hstep
    exact (ih hu).step hstep hkeeps

/-- A running row with the flag set was triggered after its claim. -/
lemma waiting_of_flag (hrun : run step .empty ops = some t) (hrow : row ∈ t.rows)
    (hrunning : row.job.status = .running) (hflag : row.job.requeueNeeded = true) :
    Waiting ops row.repoId := by
  induction ops using List.reverseRecOn generalizing t row with
  | nil =>
    obtain rfl : Table.empty = t := Option.some.inj hrun
    cases hrow
  | append_singleton ops op ih =>
    obtain ⟨u, hu, hstep⟩ := run_concat_eq_some.mp hrun
    obtain ⟨old, hold, rfl⟩ | ⟨now, repoUrl, trigger, branch, -, -, hnew, -⟩ := step_row hstep hrow
    · obtain ⟨token, hclaims, -⟩ | ⟨hbefore, -, hother⟩ := set_running hrunning
      · -- a claim clears the flag
        cases op with
        | claim now debounceSecs leaseSecs id repoId token' =>
          obtain ⟨rfl, -⟩ := hclaims
          simp [Row.set, Op.change, Job.claim] at hflag
        | _ => cases hclaims
      · by_cases htriggers : op.Triggers old.repoId
        · exact ⟨ops, op, [], rfl, htriggers, by simp⟩
        · have hkept : old.job.requeueNeeded = true := flag_of_set htriggers hflag
          refine (ih hu hold hbefore hkept).concat (fun hclaims => ?_) fun hcancels => ?_
          · obtain ⟨token, hclaimsRow⟩ := claimsRow_of_step hstep hold hclaims
            exact hother token hclaimsRow
          · -- a cancelled row does not run
            cases op with
            | cancelRepo now repoId =>
              obtain rfl : repoId = old.repoId := hcancels
              simp [Row.set, Op.change, hbefore] at hrunning
            | _ => cases hcancels
    · rw [hnew] at hrunning
      cases hrunning

lemma run_of_guarded (hrun : run (guarded step KeepsTrigger) .empty ops = some t) :
    run step .empty ops = some t := by
  induction ops using List.reverseRecOn generalizing t with
  | nil => exact hrun
  | append_singleton ops op ih =>
    obtain ⟨u, hu, hstep⟩ := run_concat_eq_some.mp hrun
    exact run_concat_eq_some.mpr ⟨u, ih hu, (guarded_eq_some.mp hstep).2⟩

/-- Dead-lettering a triggered row loses the trigger. -/
lemma not_noLostTrigger (hrun : run step .empty ops = some t) (hrow : row ∈ t.rows)
    (hflag : row.job.requeueNeeded = true) (hburies : op.Buries row) (hstep : step t op = some t') :
    ¬NoLostTrigger (ops ++ [op]) t' := by
  intro h
  have hrunning : row.job.status = .running := by
    cases op with
    | fail => exact hburies.1.2.1
    | reapExpiredLeases => exact hburies.1.1
    | _ => cases hburies
  have hwaiting : Waiting (ops ++ [op]) row.repoId := by
    refine (waiting_of_flag hrun hrow hrunning hflag).concat ?_ ?_
    · cases op <;> first | exact id | cases hburies
    · cases op <;> first | exact id | cases hburies
  obtain ⟨row', hrow', hrepo, hcarries⟩ := h row.repoId hwaiting
  have hkept : row.set op ∈ t'.rows := by
    obtain hkept | ⟨-, hdead⟩ := step_keeps hstep hrow
    · exact hkept
    · rw [hrunning] at hdead
      cases hdead
  obtain rfl := List.inj_on_of_nodup_map t'.repos hrow' hkept hrepo
  have hdead := set_status_of_buries hburies
  obtain hpending | ⟨hrunning', -⟩ | ⟨hsucceeded, -⟩ := hcarries
  · rw [hdead] at hpending
    cases hpending
  · rw [hdead] at hrunning'
    cases hrunning'
  · rw [hdead] at hsucceeded
    cases hsucceeded

/-- **No lost trigger.**  In all states of a run each trigger that waits is carried by the row of its
repository if and only if no statement of the run dead-letters a row that was triggered while it
ran. -/
theorem noLostTrigger_iff (hrun : run step .empty ops = some t) :
    (∀ front u, front <+: ops → run step .empty front = some u → NoLostTrigger front u) ↔
      run (guarded step KeepsTrigger) .empty ops = some t := by
  constructor
  · intro h
    induction ops using List.reverseRecOn generalizing t with
    | nil => exact hrun
    | append_singleton ops op ih =>
      obtain ⟨u, hu, hstep⟩ := run_concat_eq_some.mp hrun
      have hguarded := ih hu fun front u hfront =>
        h front u (hfront.trans (List.prefix_append _ _))
      have hkeeps : KeepsTrigger u op := fun row hrow hflag hburies =>
        not_noLostTrigger hu hrow hflag hburies hstep (h _ t List.prefix_rfl hrun)
      exact run_concat_eq_some.mpr ⟨u, hguarded, guarded_eq_some.mpr ⟨hkeeps, hstep⟩⟩
  · rintro hguarded front u ⟨back, rfl⟩ hu
    rw [run_append] at hguarded
    obtain ⟨u', hu', -⟩ := Option.bind_eq_some_iff.mp hguarded
    obtain rfl := Option.some.inj (hu.symm.trans (run_of_guarded hu'))
    exact noLostTrigger_of_guarded hu'

/-- A push that arrives while the last attempt runs. -/
def buriedRun : List Op :=
  [.upsert 0 "repo" "url" .webhook none, .claim 1 0 1800 1 "repo" "token",
    .upsert 2 "repo" "url" .webhook none, .fail 3 1 (some "token") "bad manifest" true]

/-- Without the push, a failed job loses nothing. -/
theorem noLostTrigger_iff_failedRun :
    (run step .empty (buriedRun.eraseIdx 2)).isSome ∧
      ¬∃ front u, front <+: buriedRun.eraseIdx 2 ∧ run step .empty front = some u ∧
        ¬NoLostTrigger front u := by
  have hsome : (run (guarded step KeepsTrigger) .empty (buriedRun.eraseIdx 2)).isSome := by decide
  obtain ⟨t, ht⟩ := Option.isSome_iff_exists.mp hsome
  have hrun := run_of_guarded ht
  refine ⟨by rw [hrun]; rfl, ?_⟩
  intro ⟨front, u, hfront, hu, hlost⟩
  exact hlost ((noLostTrigger_iff hrun).mpr ht front u hfront hu)

/-- The push is swallowed: the row is dead-lettered. -/
theorem buriedRun_loses : ¬∀ ops t, run step .empty ops = some t → NoLostTrigger ops t := by
  intro h
  have hdead : (run step .empty buriedRun).any
      fun t => ∀ row ∈ t.rows, row.job.status = .deadLetter := by decide
  obtain ⟨t, ht, hall⟩ := (Option.any_eq_true _ _).mp hdead
  have hwaiting : Waiting buriedRun "repo" := by
    refine ⟨buriedRun.take 2, _, buriedRun.drop 3, rfl, rfl, fun op hmem => ?_⟩
    obtain rfl := List.mem_singleton.mp hmem
    exact ⟨id, id⟩
  obtain ⟨row, hrow, -, hcarries⟩ := h buriedRun t ht "repo" hwaiting
  have hstatus := of_decide_eq_true hall row hrow
  simp [Job.Carries, hstatus] at hcarries

end JobQueue
end NestWeaver
