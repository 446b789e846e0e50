import Mathlib.Algebra.Ring.Nat
import Mathlib.Data.List.Nodup
import NestWeaver.Schema.RepoUrl

/-!
# The poll scheduler

`crates/nestweaver-engine/src/scheduler.rs`: the rows that say when each repository is polled next.
The id of a repository is a configured name or the last part of its URL, so a row belongs to a
repository by its id and its canonical URL (`RepoSchedule.key`).

A request names the repository that it is issued for.  Two of the operations only look at the id
(`updateCommitTime`, `removeRepo`), and what they do to other repositories is told exactly by
`Spares`.

Times and durations are in nanoseconds.
-/

set_option linter.all false

namespace NestWeaver
namespace PollScheduler

open RepoUrl

/-! ## Rows -/

def durationMax : ℕ := 18446744073709551615 * 1000000000 + 999999999

/-- Five minutes. -/
def webhookHealthyFloor : ℕ := 300 * 1000000000

inductive PollOverride
  | fixed (interval : ℕ)
  | never
  | manual
  deriving DecidableEq, Repr

structure RepoSchedule where
  repoId : String
  repoUrl : String
  branch : Option String
  pollOverride : Option PollOverride
  lastCommitTime : Option ℕ
  nextPollAt : ℕ
  deriving DecidableEq, Repr

/-- Without slashes at the end, and without one `.git` before them. -/
def canonicalRepoId (url : String) : String :=
  .ofList (stripGitSuffix (trimEndSlashes url.toList))

/-- The repository of a row. -/
def RepoSchedule.key (r : RepoSchedule) : String × String := (r.repoId, canonicalRepoId r.repoUrl)

structure Scheduler where
  repos : List RepoSchedule
  minPoll : ℕ
  maxPoll : ℕ
  webhookHealthy : Bool
  deriving DecidableEq, Repr

namespace Scheduler

def new (minPoll maxPoll : ℕ) : Scheduler := ⟨[], minPoll, maxPoll, false⟩

/-! ## Operations -/

/-- The first of the elements that pass is changed. -/
def updateFirst {α : Type*} (p : α → Bool) (f : α → α) : List α → List α
  | [] => []
  | a :: l => if p a then f a :: l else a :: updateFirst p f l

/-- What a new registration changes in a row of the repository. -/
def register (now : ℕ) (repoUrl : String) (pollOverride : Option PollOverride)
    (branch : Option String) (existing : RepoSchedule) : RepoSchedule :=
  let newBranch := branch.isSome && branch != existing.branch
  let newOverride := pollOverride.isSome && pollOverride != existing.pollOverride
  { existing with
    branch := if newBranch then branch else existing.branch
    pollOverride := if newOverride then pollOverride else existing.pollOverride
    repoUrl
    nextPollAt := if newBranch || newOverride then now else existing.nextPollAt }

def isTracked (repoId repoUrl : String) (r : RepoSchedule) : Bool :=
  r.key = (repoId, canonicalRepoId repoUrl)

def addRepo (s : Scheduler) (now : ℕ) (repoId repoUrl : String)
    (pollOverride : Option PollOverride) (branch : Option String) : Scheduler :=
  if s.repos.any (isTracked repoId repoUrl) then
    { s with
      repos := updateFirst (isTracked repoId repoUrl) (register now repoUrl pollOverride branch)
        s.repos }
  else
    { s with repos := s.repos ++ [⟨repoId, repoUrl, branch, pollOverride, none, now⟩] }

def computeInterval (s : Scheduler) (now : ℕ) (repo : RepoSchedule) : ℕ :=
  match repo.pollOverride with
  | some (.fixed interval) => interval
  | some .never | some .manual => durationMax
  | none =>
    let sinceLast := (repo.lastCommitTime.map (now - ·)).getD s.maxPoll
    let floor := if s.webhookHealthy then webhookHealthyFloor else s.minPoll
    min (max (sinceLast / 2) floor) s.maxPoll

/-- The interval with a random part of it. -/
def jittered (random interval : ℕ) : ℕ :=
  if durationMax / 2 ≤ interval then interval
  else
    let millis := interval / 1000000 % 2 ^ 64
    if millis = 0 then interval else (millis / 2 + random % millis) * 1000000

/-- A row that is due, and not configured to never poll. -/
def isDue (s : Scheduler) (now : ℕ) (r : RepoSchedule) : Bool :=
  decide (r.nextPollAt ≤ now) && s.computeInterval now r != durationMax

/-- The repositories that are due, and the rows with the time of their next poll. -/
def dueRepos (s : Scheduler) (now : ℕ) (random : RepoSchedule → ℕ) :
    Scheduler × List (String × String × Option String) :=
  ({ s with
      repos := s.repos.map fun r =>
        if s.isDue now r then
          { r with nextPollAt := now + jittered (random r) (s.computeInterval now r) }
        else r },
    (s.repos.filter (s.isDue now)).map fun r => (r.repoId, r.repoUrl, r.branch))

def updateCommitTime (s : Scheduler) (repoId : String) (time : ℕ) : Scheduler :=
  { s with
    repos := updateFirst (·.repoId = repoId) (fun r => { r with lastCommitTime := some time })
      s.repos }

def removeRepo (s : Scheduler) (repoId : String) : Scheduler :=
  { s with repos := s.repos.filter (·.repoId ≠ repoId) }

/-! ## Requests -/

/-- An operation, and the URL of the repository that it is issued for. -/
inductive Request
  | addRepo (now : ℕ) (repoId repoUrl : String) (pollOverride : Option PollOverride)
      (branch : Option String)
  | dueRepos (now : ℕ) (random : RepoSchedule → ℕ)
  | updateCommitTime (repoId repoUrl : String) (time : ℕ)
  | removeRepo (repoId repoUrl : String)
  | setWebhookHealthy (healthy : Bool)

/-- The repository that a request is issued for. -/
def Request.target : Request → Option (String × String)
  | .addRepo _ repoId repoUrl _ _ | .updateCommitTime repoId repoUrl _ | .removeRepo repoId repoUrl =>
    some (repoId, canonicalRepoId repoUrl)
  | .dueRepos _ _ | .setWebhookHealthy _ => none

def step (s : Scheduler) : Request → Scheduler
  | .addRepo now repoId repoUrl pollOverride branch => s.addRepo now repoId repoUrl pollOverride branch
  | .dueRepos now random => (s.dueRepos now random).1
  | .updateCommitTime repoId _ time => s.updateCommitTime repoId time
  | .removeRepo repoId _ => s.removeRepo repoId
  | .setWebhookHealthy healthy => { s with webhookHealthy := healthy }

/-- The scheduler after some requests. -/
def after (s : Scheduler) (requests : List Request) : Scheduler := requests.foldl step s

/-- The rows of a repository are what they were, and in the same order. -/
def KeepsOthers (s s' : Scheduler) (target : String × String) : Prop :=
  s'.repos.filter (·.key ≠ target) = s.repos.filter (·.key ≠ target)

/-- A request by the id alone finds no row of another repository, or none that it changes. -/
def Spares (s : Scheduler) : Request → Prop
  | .updateCommitTime repoId repoUrl time => ∀ r, s.repos.find? (·.repoId = repoId) = some r →
      r.key = (repoId, canonicalRepoId repoUrl) ∨ r.lastCommitTime = some time
  | .removeRepo repoId repoUrl => ∀ r ∈ s.repos, r.repoId = repoId →
      r.key = (repoId, canonicalRepoId repoUrl)
  | _ => True

/-! ## Lists -/

section Lists

variable {α β : Type*} {p q : α → Bool} {f : α → α} {l : List α}

lemma map_updateFirst {key : α → β} (h : ∀ a, p a = true → key (f a) = key a) :
    (updateFirst p f l).map key = l.map key := by
  induction l with
  | nil => rfl
  | cons a l ih =>
    rw [updateFirst]
    by_cases ha : p a = true
    · rw [if_pos ha, List.map_cons, h a ha, List.map_cons]
    · rw [if_neg ha, List.map_cons, ih, List.map_cons]

/-- The change is not seen among the elements with a property iff it is no change of one of them. -/
lemma filter_updateFirst_eq_iff (h : ∀ a, p a = true → q (f a) = q a) :
    (updateFirst p f l).filter q = l.filter q ↔ ∀ a, l.find? p = some a → q a = true → f a = a := by
  induction l with
  | nil => simp [updateFirst]
  | cons a l ih =>
    rw [updateFirst]
    by_cases ha : p a = true
    · have hfirst : (a :: l).find? p = some a := List.find?_cons_of_pos ha
      rw [if_pos ha, hfirst, List.filter_cons, List.filter_cons, h a ha]
      by_cases hq : q a = true
      · simp [hq]
      · simp [hq]
    · have hrest : (a :: l).find? p = l.find? p := List.find?_cons_of_neg ha
      rw [if_neg ha, hrest, ← ih, List.filter_cons, List.filter_cons]
      by_cases hq : q a = true
      · simp [hq]
      · simp [hq]

lemma filter_filter_eq_iff :
    (l.filter p).filter q = l.filter q ↔ ∀ a ∈ l, q a = true → p a = true := by
  constructor
  · intro h a ha hq
    have hmem : a ∈ (l.filter p).filter q := h ▸ List.mem_filter.mpr ⟨ha, hq⟩
    exact (List.mem_filter.mp (List.mem_filter.mp hmem).1).2
  · intro h
    rw [List.filter_filter]
    refine List.filter_congr fun a ha => ?_
    by_cases hq : q a = true
    · simp [hq, h a ha hq]
    · simp [hq]

end Lists

/-! ## What each operation keeps -/

variable {s : Scheduler}

lemma isTracked_iff {repoId repoUrl : String} {r : RepoSchedule} :
    isTracked repoId repoUrl r = true ↔ r.key = (repoId, canonicalRepoId repoUrl) :=
  decide_eq_true_iff

lemma key_register (now : ℕ) (repoId repoUrl : String) (pollOverride : Option PollOverride)
    (branch : Option String) (r : RepoSchedule) (h : isTracked repoId repoUrl r = true) :
    (register now repoUrl pollOverride branch r).key = r.key := by
  have hkey := isTracked_iff.mp h
  obtain ⟨hid, hurl⟩ := Prod.mk.inj hkey
  rw [hkey, ← hid]
  rfl

lemma keepsOthers_addRepo (s : Scheduler) (now : ℕ) (repoId repoUrl : String)
    (pollOverride : Option PollOverride) (branch : Option String) :
    s.KeepsOthers (s.addRepo now repoId repoUrl pollOverride branch)
      (repoId, canonicalRepoId repoUrl) := by
  unfold KeepsOthers addRepo
  split_ifs with hany
  · refine (filter_updateFirst_eq_iff fun r hr => ?_).mpr fun r hfind hr => ?_
    · rw [key_register now repoId repoUrl pollOverride branch r hr]
    · exact absurd (isTracked_iff.mp (List.find?_some hfind)) (of_decide_eq_true hr)
  · rw [List.filter_append]
    simp [RepoSchedule.key]

lemma keepsOthers_updateCommitTime {repoId repoUrl : String} {time : ℕ} :
    s.KeepsOthers (s.updateCommitTime repoId time) (repoId, canonicalRepoId repoUrl) ↔
      s.Spares (.updateCommitTime repoId repoUrl time) := by
  simp only [KeepsOthers, updateCommitTime]
  rw [filter_updateFirst_eq_iff (by intros; rfl)]
  refine forall₂_congr fun r _ => ?_
  have hsame : ({ r with lastCommitTime := some time } : RepoSchedule) = r ↔
      r.lastCommitTime = some time := by
    constructor
    · intro h
      rw [← h]
    · intro h
      rw [← h]
  rw [hsame, decide_eq_true_eq, or_iff_not_imp_left]

lemma keepsOthers_removeRepo {repoId repoUrl : String} :
    s.KeepsOthers (s.removeRepo repoId) (repoId, canonicalRepoId repoUrl) ↔
      s.Spares (.removeRepo repoId repoUrl) := by
  simp only [KeepsOthers, removeRepo]
  rw [filter_filter_eq_iff]
  refine forall₂_congr fun r _ => ?_
  rw [decide_eq_true_eq, decide_eq_true_eq, not_imp_not]

/-! ## Runs -/

/-- No repository has two rows. -/
def Unique (s : Scheduler) : Prop := (s.repos.map RepoSchedule.key).Nodup

lemma Unique.step (h : s.Unique) (r : Request) : (s.step r).Unique := by
  unfold Unique at h ⊢
  cases r with
  | addRepo now repoId repoUrl pollOverride branch =>
    simp only [Scheduler.step, addRepo]
    split_ifs with hany
    · rwa [map_updateFirst (key_register now repoId repoUrl pollOverride branch)]
    · rw [List.map_append, List.map_singleton]
      refine List.Nodup.append h (List.nodup_singleton _) ?_
      intro key hkey hnew
      obtain ⟨r, hr, rfl⟩ := List.mem_map.mp hkey
      rw [List.mem_singleton] at hnew
      exact hany (List.any_eq_true.mpr ⟨r, hr, isTracked_iff.mpr hnew⟩)
  | dueRepos now random =>
    have hkeys : ((s.dueRepos now random).1.repos).map RepoSchedule.key =
        s.repos.map RepoSchedule.key := by
      rw [dueRepos, List.map_map]
      refine List.map_congr_left fun r _ => ?_
      by_cases hdue : s.isDue now r = true
      · simp [hdue, RepoSchedule.key]
      · simp [hdue]
    rwa [Scheduler.step, hkeys]
  | updateCommitTime repoId repoUrl time =>
    simp only [Scheduler.step, updateCommitTime]
    rwa [map_updateFirst (by intros; rfl)]
  | removeRepo repoId repoUrl => exact h.sublist (List.filter_sublist.map _)
  | setWebhookHealthy healthy => exact h

/-- **A request keeps the rows of other repositories exactly if it spares them.**  After any requests
no repository has two rows. -/
theorem requests_isolated (minPoll maxPoll : ℕ) (requests : List Request) :
    ((new minPoll maxPoll).after requests).Unique ∧
    ∀ (r : Request) (target : String × String), r.target = some target →
      (((new minPoll maxPoll).after requests).KeepsOthers
          (((new minPoll maxPoll).after requests).step r) target ↔
        ((new minPoll maxPoll).after requests).Spares r) := by
  refine ⟨?_, fun r target htarget => ?_⟩
  · induction requests using List.reverseRecOn with
    | nil => exact List.nodup_nil
    | append_singleton requests r ih =>
      rw [after, List.foldl_append]
      exact Unique.step ih r
  · cases r with
    | addRepo now repoId repoUrl pollOverride branch =>
      obtain rfl := Option.some.inj htarget
      exact iff_of_true (keepsOthers_addRepo ..) True.intro
    | dueRepos now random => cases htarget
    | updateCommitTime repoId repoUrl time =>
      obtain rfl := Option.some.inj htarget
      exact keepsOthers_updateCommitTime
    | removeRepo repoId repoUrl =>
      obtain rfl := Option.some.inj htarget
      exact keepsOthers_removeRepo
    | setWebhookHealthy healthy => cases htarget

/-- Two repositories with one name. -/
def namesakes : List Request :=
  [.addRepo 0 "api" "https://github.com/acme/api.git" none none,
    .addRepo 0 "api" "https://gitlab.com/vendor/api" none none]

/-- A commit of the first repository is told to its own row. -/
theorem requests_isolated_namesakes :
    ((new 45 90).after namesakes).KeepsOthers
      (((new 45 90).after namesakes).step
        (.updateCommitTime "api" "https://github.com/acme/api.git" 7))
      ("api", "https://github.com/acme/api") := by
  have htarget : (Request.updateCommitTime "api" "https://github.com/acme/api.git" 7).target =
      some ("api", "https://github.com/acme/api") := by
    decide +kernel
  refine ((requests_isolated 45 90 namesakes).2 _ _ htarget).mpr fun r hr => .inl ?_
  obtain rfl := Option.some.inj hr
  decide +kernel

/-- A removal of the first repository drops the second one, and a commit of the second one changes
the row of the first. -/
theorem namesake_dropped :
    ((new 45 90).after (namesakes ++ [Request.removeRepo "api" "https://github.com/acme/api.git"])).repos =
        [] ∧
      ¬ ((new 45 90).after namesakes).KeepsOthers
        (((new 45 90).after namesakes).step
          (.updateCommitTime "api" "https://gitlab.com/vendor/api" 7))
        ("api", "https://gitlab.com/vendor/api") := by
  refine ⟨by decide +kernel, ?_⟩
  unfold KeepsOthers
  decide +kernel

end Scheduler
end PollScheduler
end NestWeaver
