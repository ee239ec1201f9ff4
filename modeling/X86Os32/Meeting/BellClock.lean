import X86Os32.Library.Results
import X86Os32.Meeting.BellTimes
import X86Os32.Meeting.Bellringer

namespace X86Os32.Scheduler

open Library Library.Results

/-! The operations of the scheduler on its bells do what the bellringer by
itself does, unless they touch a bell that is gone. -/

def Agrees (x : Bellringer Bell) (s : State σ) : Prop :=
  x.bells = s.bells ∧ x.ms = s.ms

variable {σ : Type} {x : Bellringer Bell} {s : State σ}

theorem touch_agrees (hagrees : Agrees x s) (bell : Bell) :
    Outcome (fun _ => True) (fun _ => Agrees x s) (s.touch bell) := by
  unfold State.touch
  split
  · exact hagrees
  · trivial

theorem cancel_follows (hagrees : Agrees x s) (bell : Bell) :
    Follows (fun _ => True) Agrees (x.cancel bell) (s.cancel bell) := by
  refine Follows.after (touch_agrees hagrees bell) fun _ _ => ?_
  obtain ⟨hbells, hms⟩ := hagrees
  have hremove : ∀ {y : Bellringer Bell} {s : State σ}, Agrees y s →
      Follows (fun _ => True) Agrees
        (do
          let removed ← y.bells.remove () bell
          return { y with bells := removed.2 })
        (do
          let removed ← s.bells.remove () bell
          return { s with bells := removed.2 }) := by
    rintro y s ⟨hbells, hms⟩
    rw [hbells]
    refine (Follows.refl _).bind fun found _ hfound => ?_
    subst hfound
    exact .ok ⟨rfl, hms⟩
  unfold Bellringer.cancel State.inherit
  rw [hbells]
  cases s.bells.next bell with
  | none => exact hremove ⟨hbells, hms⟩
  | some next =>
      dsimp only
      rw [bind_assoc]
      refine Follows.after (Outcome.any _) fun _ _ => ?_
      refine hremove ⟨hbells, ?_⟩
      simp only [Bellringer.add, Bellringer.setMs, hms]

def WalkAgrees (r : (Option Bell × Nat) × Bellringer Bell)
    (r' : (Option Bell × Nat) × State σ) : Prop :=
  r.1 = r'.1 ∧ Agrees r.2 r'.2

theorem jobFrom_follows (hagrees : Agrees x s) (prev : Option Bell)
    (ms fuel : Nat) (b : Option Bell) :
    Follows (fun _ => True) WalkAgrees (x.jobFrom prev ms fuel b)
      (s.jobFrom prev ms fuel b) := by
  have hboth := hagrees
  obtain ⟨hbells, hms⟩ := hboth
  induction fuel generalizing prev ms b with
  | zero =>
      cases b with
      | none => exact .ok ⟨rfl, hagrees⟩
      | some b => exact .error _
  | succ fuel ih =>
      cases b with
      | none => exact .ok ⟨rfl, hagrees⟩
      | some b =>
          unfold Bellringer.jobFrom State.jobFrom
          refine Follows.after (touch_agrees hagrees b) fun _ _ => ?_
          rw [hms, hbells]
          split
          · refine .ok ⟨rfl, hbells, ?_⟩
            simp only [Bellringer.subtract, Bellringer.setMs, hms]
          · exact ih _ _ _

theorem job_follows (hagrees : Agrees x s) (bell : Bell) (ms : Nat) :
    Follows (fun _ => True) Agrees (x.job bell ms) (s.job bell ms) := by
  unfold Bellringer.job State.job
  rw [hagrees.1]
  refine (jobFrom_follows hagrees _ _ _ _).bind fun r r' hwalk => ?_
  obtain ⟨⟨prev, left⟩, y⟩ := r
  obtain ⟨_, s'⟩ := r'
  obtain ⟨rfl, hbells, hms⟩ := hwalk
  dsimp only at hbells hms ⊢
  cases prev with
  | none =>
      refine .ok ⟨?_, ?_⟩
      · simp only [Bellringer.setMs, hbells]
      · simp only [Bellringer.setMs, hms]
  | some prev =>
      refine Follows.after (Outcome.any _) fun _ _ => .ok ⟨?_, ?_⟩
      · simp only [Bellringer.setMs, hbells]
      · simp only [Bellringer.setMs, hms]

variable [ThreadQueues σ]

theorem wakeup_agrees (hagrees : Agrees x s) (t : Address) :
    Outcome (fun _ => True) (Agrees x) (s.wakeup t) := by
  refine (Outcome.any _).bind fun _ _ => ?_
  refine (Outcome.any _).bind fun _ _ => ?_
  exact (Outcome.any _).bind fun _ _ => hagrees

theorem ringFrom_agrees (hagrees : Agrees x s) (bell : Bell) (fuel : Nat) :
    Outcome (fun _ => True) (Agrees x) (s.ringFrom bell fuel) := by
  induction fuel generalizing s with
  | zero => trivial
  | succ fuel ih =>
      unfold State.ringFrom
      refine (Outcome.any _).bind fun found _ => ?_
      obtain ⟨t, threads⟩ := found
      cases t with
      | none => exact hagrees
      | some t =>
          refine Outcome.bind (wakeup_agrees ?_ t) fun s' hagrees' =>
            ih hagrees'
          exact hagrees

theorem ring_agrees (hagrees : Agrees x s) (bell : Bell) :
    Outcome (fun _ => True) (Agrees x) (s.ring bell) :=
  (touch_agrees hagrees bell).bind fun _ _ => ringFrom_agrees hagrees bell _

def RingAgrees (r : List Bell × Bellringer Bell) (s : State σ) : Prop :=
  Agrees r.2 s

theorem checkFrom_follows (hagrees : Agrees x s) (fuel : Nat) (first : Bell) :
    Follows (fun _ => True) RingAgrees (x.checkFrom fuel first)
      (s.checkFrom fuel first) := by
  induction fuel generalizing x s first with
  | zero => exact .error _
  | succ fuel ih =>
      unfold Bellringer.checkFrom State.checkFrom
      refine Follows.after (ring_agrees hagrees first) fun s hagrees => ?_
      refine (cancel_follows hagrees first).bind fun y s hagrees => ?_
      rw [hagrees.1, hagrees.2]
      cases s.bells.first () with
      | none => exact .ok hagrees
      | some next =>
          dsimp only
          refine Follows.after (touch_agrees hagrees next) fun _ _ => ?_
          split
          · have hrest := ih hagrees next
            cases hdone : s.checkFrom fuel next with
            | error stop => exact Or.inl trivial
            | ok s' =>
                rw [hdone] at hrest
                obtain ⟨r, hr, hring⟩ := hrest
                rw [hr]
                exact ⟨_, rfl, hring⟩
          · exact .ok hagrees

theorem check_follows (hagrees : Agrees x s) :
    Follows (fun _ => True) RingAgrees x.check s.check := by
  unfold Bellringer.check State.check
  rw [hagrees.1]
  cases s.bells.first () with
  | none => exact .ok hagrees
  | some first =>
      dsimp only
      refine Follows.after (touch_agrees hagrees first) fun _ _ => ?_
      have hticked : Agrees (x.subtract first 1) (s.tick first) := by
        refine ⟨hagrees.1, ?_⟩
        simp only [Bellringer.subtract, Bellringer.setMs, State.tick,
          hagrees.2]
      rw [hticked.2]
      split
      · exact checkFrom_follows hticked _ first
      · exact .ok hticked

end X86Os32.Scheduler
