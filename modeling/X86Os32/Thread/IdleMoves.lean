import X86Os32.Thread.IdleThread

namespace X86Os32.Idle

open Scheduler (Cpu)

/-! What the steps around the idle threads change, and what always holds of the
idle threads. -/

variable [DecidableEq τ] [DecidableEq β]

inductive Moves (n : Nat) (c : Cpu) (s : State τ β) :
    Event τ β → State τ β → Prop
  | loop (hidles : s.Idles c) (hstep : s.action c (s.idle c) = some s') :
      Moves n c s (.idle c) s'
  | tick (hunmasked : s.masked c = false) :
      Moves n c s (.tick c) { s with timer := Function.update s.timer c true }
  | timerOutside (henabled : s.Enabled c) (houtside : s.Outside c) :
      Moves n c s (.timer c kept)
        (((({ s with timer := Function.update s.timer c false }).wake
          c).setWaiting c true).setRequest c true)
  | timerInside (hinside : ¬ s.Outside c) (value : Bool) :
      Moves n c s (.timer c kept)
        (({ s with timer := Function.update s.timer c false }).setRequest c
          value)
  | wakeup (henabled : s.Enabled c) :
      Moves n c s (.wakeup c)
        (({ s with wakeup := Function.update s.wakeup c false }).wake c)
  | interrupt (henabled : s.Enabled c) :
      Moves n c s (.interrupt c relays) (s.wake c)
  | epilogue (henabled : s.Enabled c) (houtside : s.Outside c) :
      Moves n c s (.interrupt c relays) ((s.wake c).setWaiting c true)
  | enter (houtside : s.Outside c) (hactive : s.active c ≠ none) :
      Moves n c s (.enter c) (s.setWaiting c true)
  | acquire (hwaiting : s.waiting c = true) (hfree : s.guard = none) :
      Moves n c s (.acquire c) { s.setWaiting c false with guard := some c }
  | call (hguard : s.guard = some c) (hdone : s.todo = [])
      (hactive : s.active c = none → operation.ofIdle = true)
      (hidle : ∀ dying, operation = .resume dying → s.active c ≠ none) :
      Moves n c s (.call c operation) { s with todo := s.program c operation }
  | callIdle (hguard : s.guard = some c) (hdone : s.todo = [])
      (hactive : s.active c = none) (hresuming : s.idle c = .resuming) :
      Moves n c s (.call c (.resume dying))
        (({ s with todo := [.dispatchNext] }).setIdle c .disabling)
  | watch (hguard : s.guard = some c) (hdone : s.todo = []) :
      Moves n c s (.watch c rung dying)
        { s.setRequest c false with
          todo := watchEpilogue c rung dying (s.active c) }
  | run (hguard : s.guard = some c) (htodo : s.todo = instruction :: rest) :
      Moves n c s (.run c) { s.exec n c instruction with todo := rest }
  | leave (hguard : s.guard = some c) (hdone : s.todo = []) :
      Moves n c s (.leave c) { s with guard := none }

theorem step_moves {s : State τ β} (hstep : s.step n event = some s') :
    event.cpu.val < n ∧ Moves n event.cpu s event s' := by
  cases event with
  | idle c =>
      obtain ⟨⟨hc, hidles⟩, heq⟩ := Option.ite_none_right_eq_some.mp hstep
      exact ⟨hc, .loop hidles heq⟩
  | tick c =>
      obtain ⟨⟨hc, hunmasked⟩, heq⟩ := Option.ite_none_right_eq_some.mp hstep
      cases heq
      exact ⟨hc, .tick hunmasked⟩
  | timer c kept =>
      obtain ⟨⟨hc, -, henabled⟩, heq⟩ :=
        Option.ite_none_right_eq_some.mp hstep
      split at heq
      · next houtside =>
          cases heq
          exact ⟨hc, .timerOutside henabled houtside⟩
      · next hinside =>
          cases heq
          exact ⟨hc, .timerInside hinside _⟩
  | wakeup c =>
      obtain ⟨⟨hc, -, henabled⟩, heq⟩ :=
        Option.ite_none_right_eq_some.mp hstep
      cases heq
      exact ⟨hc, .wakeup henabled⟩
  | interrupt c epilogue =>
      obtain ⟨⟨hc, henabled⟩, heq⟩ := Option.ite_none_right_eq_some.mp hstep
      split at heq
      · next hboth =>
          cases heq
          exact ⟨hc, .epilogue henabled hboth.2⟩
      · cases heq
        exact ⟨hc, .interrupt henabled⟩
  | enter c =>
      obtain ⟨⟨hc, houtside, hactive⟩, heq⟩ :=
        Option.ite_none_right_eq_some.mp hstep
      cases heq
      exact ⟨hc, .enter houtside hactive⟩
  | acquire c =>
      obtain ⟨⟨hc, hwaiting, hfree⟩, heq⟩ :=
        Option.ite_none_right_eq_some.mp hstep
      cases heq
      exact ⟨hc, .acquire hwaiting hfree⟩
  | call c operation =>
      obtain ⟨⟨hc, hguard, hdone, hactive⟩, heq⟩ :=
        Option.ite_none_right_eq_some.mp hstep
      refine ⟨hc, ?_⟩
      split at heq
      · next dying hnone =>
          obtain ⟨hresuming, heq⟩ := Option.ite_none_right_eq_some.mp heq
          cases heq
          have hprogram : s.program c (.resume dying) = [.dispatchNext] := by
            rw [State.program, hnone]
            rfl
          rw [hprogram]
          exact .callIdle hguard hdone hnone hresuming
      · next hother =>
          cases heq
          exact .call hguard hdone hactive fun dying hop hnone =>
            hother dying hop hnone
  | watch c rung dying =>
      obtain ⟨⟨hc, hguard, hdone, -⟩, heq⟩ :=
        Option.ite_none_right_eq_some.mp hstep
      cases heq
      exact ⟨hc, .watch hguard hdone⟩
  | run c =>
      simp only [State.step] at hstep
      split at hstep
      · cases hstep
      · next htodo =>
          obtain ⟨⟨hc, hguard⟩, heq⟩ :=
            Option.ite_none_right_eq_some.mp hstep
          cases heq
          exact ⟨hc, .run hguard htodo⟩
  | leave c =>
      obtain ⟨⟨hc, hguard, hdone, -⟩, heq⟩ :=
        Option.ite_none_right_eq_some.mp hstep
      cases heq
      exact ⟨hc, .leave hguard hdone⟩

/-- The idle thread is only here while it runs. -/
def Point.present : Point → Bool
  | .disabling | .unblocking | .resuming => false
  | _ => true

def Point.masks : Point → Bool
  | .halting masked | .halted masked => masked
  | .unblocking => true
  | _ => false

theorem Point.woken_masks (point : Point) : point.woken.masks = point.masks := by
  rcases point with _ | _ | _ | _ | masked | masked | _ | _ | _ <;>
    try rfl
  cases masked <;> rfl

theorem Point.woken_present {point : Point} (henabled : point.enabled = true) :
    point.woken.present = false := by
  rcases point with _ | _ | _ | _ | masked | masked | _ | _ | _ <;>
    try first | rfl | cases henabled
  cases masked <;> rfl

structure Placed (s : State τ β) : Prop where
  present : ∀ c, (s.idle c).present = true → s.Idles c
  masked : ∀ c, s.masked c = (s.idle c).masks
  quiet : s.guard = none → s.todo = []

theorem Moves.elsewhere {s : State τ β} (hmoves : Moves n c s event s')
    (hd : d ≠ c) :
    s'.idle d = s.idle d ∧ s'.masked d = s.masked d ∧
      (s.Idles d → s'.Idles d) := by
  cases hmoves with
  | loop hidles hstep =>
      generalize s.idle c = point at hstep
      cases point <;> cases hstep <;>
        simp [State.setIdle, State.setMasked, State.setWaiting, State.Idles,
          State.Outside, hd]
  | run =>
      rename_i instruction rest hguard htodo
      cases instruction <;>
        simp [State.exec, State.Idles, State.Outside, hd]
  | acquire hwaiting hfree =>
      simp only [State.setWaiting, State.Idles, State.Outside,
        Function.update_of_ne hd, ne_eq, Option.some_inj, Ne.symm hd,
        not_false_eq_true, and_true, true_and]
      exact fun hidles => ⟨hidles.1.1, hidles.2⟩
  | leave hguard hdone =>
      exact ⟨rfl, rfl, fun hidles => ⟨⟨hidles.1.1, nofun⟩, hidles.2⟩⟩
  | _ =>
      simp [State.wake, State.setIdle, State.setWaiting, State.setRequest,
        State.Idles, State.Outside, hd]

omit [DecidableEq τ] [DecidableEq β] in
theorem wake_present {s : State τ β}
    (hpresent : (s.idle c).present = true → s.Idles c)
    (henabled : s.Enabled c) : ¬ ((s.wake c).idle c).present = true := by
  simp only [State.wake, State.setIdle, Function.update_self]
  split
  · next hidles => simp [Point.woken_present (henabled hidles)]
  · next hbusy => exact fun hthere => hbusy (hpresent hthere)

omit [DecidableEq τ] [DecidableEq β] in
theorem wake_masks (s : State τ β) (c : Cpu) :
    ((s.wake c).idle c).masks = (s.idle c).masks := by
  simp only [State.wake, State.setIdle, Function.update_self]
  split
  · exact Point.woken_masks _
  · rfl

omit [DecidableEq τ] [DecidableEq β] in
theorem action_here {s : State τ β} (hidles : s.Idles c)
    (hmasked : s.masked c = (s.idle c).masks)
    (hstep : s.action c (s.idle c) = some s') :
    ((s'.idle c).present = true → s'.Idles c) ∧
      s'.masked c = (s'.idle c).masks := by
  generalize hpoint : s.idle c = point at hmasked hstep
  cases point with
  | disabling | halting | enabling =>
      cases hstep
      exact ⟨fun _ => hidles,
        by simpa [State.setIdle, Point.masks] using hmasked⟩
  | reading | asking =>
      cases hstep
      refine ⟨fun _ => hidles, ?_⟩
      simp only [State.setIdle, Function.update_self]
      split <;> exact hmasked
  | blocking | unblocking =>
      cases hstep
      exact ⟨fun _ => hidles, by simp [State.setIdle, State.setMasked,
        Point.masks]⟩
  | halted => cases hstep
  | resuming =>
      cases hstep
      simpa [State.setWaiting, hpoint, Point.present] using hmasked

theorem Moves.here {s : State τ β} (hplaced : Placed s)
    (hmoves : Moves n c s event s') :
    ((s'.idle c).present = true → s'.Idles c) ∧
      s'.masked c = (s'.idle c).masks ∧ (s'.guard = none → s'.todo = []) := by
  have hmasked := hplaced.masked c
  have hpresent := hplaced.present c
  cases hmoves with
  | loop hidles hstep =>
      obtain ⟨hthere, hmask⟩ := action_here hidles hmasked hstep
      refine ⟨hthere, hmask, ?_⟩
      generalize s.idle c = point at hstep
      cases point <;> cases hstep <;> exact hplaced.quiet
  | tick | timerInside => exact ⟨hpresent, hmasked, hplaced.quiet⟩
  | timerOutside henabled | epilogue henabled | interrupt henabled
  | wakeup henabled =>
      exact ⟨fun hthere => absurd hthere (wake_present hpresent henabled),
        hmasked.trans (wake_masks s c).symm, hplaced.quiet⟩
  | enter houtside hactive =>
      exact ⟨fun hthere => absurd (hpresent hthere).2 hactive, hmasked,
        hplaced.quiet⟩
  | acquire hwaiting hfree =>
      refine ⟨fun hthere => ?_, hmasked, nofun⟩
      have hbefore := (hpresent hthere).1.1
      rw [hwaiting] at hbefore
      cases hbefore
  | call hguard | watch hguard =>
      exact ⟨fun hthere => absurd hguard (hpresent hthere).1.2, hmasked,
        fun hnone => by cases hguard.symm.trans hnone⟩
  | callIdle hguard hdone hactive hresuming =>
      refine ⟨?_, ?_, fun hnone => by cases hguard.symm.trans hnone⟩
      · simp [State.setIdle, Point.present]
      · simp [State.setIdle, Point.masks, hmasked, hresuming]
  | run hguard htodo =>
      rename_i instruction rest
      have hsame : (s.exec n c instruction).idle = s.idle ∧
          (s.exec n c instruction).masked = s.masked ∧
          (s.exec n c instruction).guard = s.guard := by
        cases instruction <;> exact ⟨rfl, rfl, rfl⟩
      obtain ⟨hidle, hmask, hinside⟩ := hsame
      dsimp only
      rw [hidle, hmask, hinside]
      exact ⟨fun hthere => absurd hguard (hpresent hthere).1.2, hmasked,
        fun hnone => by cases hguard.symm.trans hnone⟩
  | leave hguard hdone =>
      exact ⟨fun hthere => absurd hguard (hpresent hthere).1.2, hmasked,
        fun _ => hdone⟩

theorem Placed.moves {s : State τ β} (hplaced : Placed s)
    (hmoves : Moves n c s event s') : Placed s' := by
  obtain ⟨hpresent, hmasked, hquiet⟩ := hmoves.here hplaced
  refine ⟨fun d hthere => ?_, fun d => ?_, hquiet⟩
  · by_cases hd : d = c
    · subst hd
      exact hpresent hthere
    · obtain ⟨hidle, -, hstays⟩ := hmoves.elsewhere hd
      rw [hidle] at hthere
      exact hstays (hplaced.present d hthere)
  · by_cases hd : d = c
    · subst hd
      exact hmasked
    · obtain ⟨hidle, hmask, -⟩ := hmoves.elsewhere hd
      rw [hidle, hmask]
      exact hplaced.masked d

omit [DecidableEq τ] [DecidableEq β] in
theorem Placed.start {s : State τ β} (hstarts : s.Starts) : Placed s := by
  obtain ⟨-, -, htodo, hcpus⟩ := hstarts
  refine ⟨fun c hthere => ?_, fun c => ?_, fun _ => htodo⟩
  · obtain ⟨-, -, hidle, -⟩ := hcpus c
    rw [hidle] at hthere
    cases hthere
  · obtain ⟨-, -, hidle, hmasked, -⟩ := hcpus c
    rw [hidle, hmasked]
    rfl

end X86Os32.Idle
