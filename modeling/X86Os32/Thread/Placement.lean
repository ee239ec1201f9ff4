import X86Os32.Thread.Lists

namespace X86Os32.Scheduler

open Library

/-! Where the threads are.  Every thread has one location; the queues and the
life pointers list the threads by their locations. -/

inductive Location
  | nowhere
  | queue (i : QueueId)
  | cpu (c : Cpu)
deriving DecidableEq

/-- A bell is waited for by the thread on whose stack it lies. -/
def Room.Admits (w : Room) (t : Address) : Prop :=
  ∀ b, w = .bell b → b.thread = t

/-- The fields of a thread agree with its location. -/
structure Sits (machine : Machine) (s : State Lists) (t : Address)
    (place : Location) : Prop where
  waiting : s.destroyed t = false →
    ∀ w, s.waitingIn t = some w ↔ place = .queue (.room w)
  unreadied : s.readied t = false →
    place = .nowhere ∨ ∃ c, machine.idlethread c = t ∧ place = .cpu c
  idle : machine.Idle t → s.readied t = false ∧ s.killed t = false
  buried : s.destroyed t = true → s.readied t = true ∧ place = .nowhere
  settled : s.readied t = true → s.destroyed t = false → place ≠ .nowhere
  room : ∀ w, place = .queue (.room w) →
    s.resumption t = w.resumption ∧ w.Admits t
  resumes : s.resumption t ≠ none →
    (∃ i, place = .queue i) ∨ s.destroyed t = true

/-- `current` is the thread that each CPU executes.  Inside an operation, after
the thread has been put elsewhere, it is ahead of the life pointer. -/
structure Placed (machine : Machine) (s : State Lists)
    (current : Cpu → Option Address) (place : Address → Location) : Prop where
  listed : ∀ i t, t ∈ s.threads i ↔ place t = .queue i
  nodup : ∀ i, (s.threads i).Nodup
  running : ∀ c t, current c = some t ↔ place t = .cpu c
  sits : ∀ t, Sits machine s t (place t)

/-- Nothing that `Sits` asks about the thread has changed. -/
structure Same (s s' : State Lists) (t : Address) : Prop where
  waitingIn : s'.waitingIn t = s.waitingIn t
  killed : s'.killed t = s.killed t
  readied : s'.readied t = s.readied t
  destroyed : s'.destroyed t = s.destroyed t
  resumption : s'.resumption t = s.resumption t

variable {machine : Machine} {s s' : State Lists} {t : Address}
  {current current' : Cpu → Option Address} {place : Address → Location}
  {w : Room} {cpu : Cpu}

theorem Sits.congr {target : Location} (hsits : Sits machine s t target)
    (hsame : Same s s' t) : Sits machine s' t target := by
  obtain ⟨hwaiting, hkilled, hreadied, hdestroyed, hresumption⟩ := hsame
  constructor
  · rw [hdestroyed, hwaiting]
    exact hsits.waiting
  · rw [hreadied]
    exact hsits.unreadied
  · rw [hreadied, hkilled]
    exact hsits.idle
  · rw [hdestroyed, hreadied]
    exact hsits.buried
  · rw [hdestroyed, hreadied]
    exact hsits.settled
  · rw [hresumption]
    exact hsits.room
  · rw [hresumption, hdestroyed]
    exact hsits.resumes

theorem Placed.congr (hplaced : Placed machine s current place)
    (hthreads : s'.threads = s.threads) (hsame : ∀ t, Same s s' t) :
    Placed machine s' current place where
  listed := hthreads ▸ hplaced.listed
  nodup := hthreads ▸ hplaced.nodup
  running := hplaced.running
  sits t := (hplaced.sits t).congr (hsame t)

/-- One thread goes to another place. -/
theorem Placed.move (hplaced : Placed machine s current place)
    {target : Location}
    (hlisted : ∀ i u, u ∈ s'.threads i ↔
      if u = t then target = .queue i else u ∈ s.threads i)
    (hnodup : ∀ i, (s'.threads i).Nodup)
    (hrunning : ∀ c u, current' c = some u ↔
      if u = t then target = .cpu c else current c = some u)
    (hothers : ∀ u, u ≠ t → Same s s' u) (hsits : Sits machine s' t target) :
    Placed machine s' current' (Function.update place t target) where
  listed i u := by
    rw [hlisted]
    by_cases heq : u = t
    · subst heq
      simp
    · simp [heq, hplaced.listed]
  nodup := hnodup
  running c u := by
    rw [hrunning]
    by_cases heq : u = t
    · subst heq
      simp
    · simp [heq, hplaced.running]
  sits u := by
    by_cases heq : u = t
    · subst heq
      simpa using hsits
    · rw [Function.update_of_ne heq]
      exact (hplaced.sits u).congr (hothers u heq)

/-! ### Lists of threads -/

namespace Lists

def append (lists : Lists) (i : QueueId) (t : Address) : Lists :=
  Function.update lists i (lists i ++ [t])

def erase (lists : Lists) (i : QueueId) (t : Address) : Lists :=
  Function.update lists i ((lists i).erase t)

variable {lists : Lists} {i j : QueueId} {t u : Address}

theorem mem_append (hfresh : ∀ j, t ∉ lists j) :
    u ∈ lists.append i t j ↔ if u = t then i = j else u ∈ lists j := by
  by_cases hj : j = i
  · subst hj
    by_cases heq : u = t
    · simp [append, heq]
    · simp [append, heq]
  · by_cases heq : u = t
    · simp [append, heq, hj, hfresh, Ne.symm hj]
    · simp [append, heq, hj]

theorem nodup_append (hnodup : ∀ j, (lists j).Nodup) (hfresh : t ∉ lists i) :
    (lists.append i t j).Nodup := by
  by_cases hj : j = i
  · subst hj
    rw [append, Function.update_self, ← List.concat_eq_append]
    exact (hnodup j).concat hfresh
  · rw [append, Function.update_of_ne hj]
    exact hnodup j

theorem mem_erase (hnodup : ∀ j, (lists j).Nodup)
    (honly : ∀ j, t ∈ lists j → j = i) :
    u ∈ lists.erase i t j ↔ u ≠ t ∧ u ∈ lists j := by
  by_cases hj : j = i
  · subst hj
    rw [erase, Function.update_self, (hnodup j).mem_erase_iff]
  · rw [erase, Function.update_of_ne hj]
    constructor
    · intro hmem
      refine ⟨?_, hmem⟩
      rintro rfl
      exact hj (honly j hmem)
    · exact And.right

theorem mem_of_mem_erase (hmem : u ∈ lists.erase i t j) : u ∈ lists j := by
  by_cases hj : j = i
  · subst hj
    rw [erase, Function.update_self] at hmem
    exact List.mem_of_mem_erase hmem
  · rwa [erase, Function.update_of_ne hj] at hmem

theorem nodup_erase (hnodup : ∀ j, (lists j).Nodup) :
    (lists.erase i t j).Nodup := by
  by_cases hj : j = i
  · subst hj
    rw [erase, Function.update_self]
    exact (hnodup j).erase t
  · rw [erase, Function.update_of_ne hj]
    exact hnodup j

end Lists

/-! ### What the operations do to the lists -/

namespace State

variable (machine : Machine) (s : State Lists) (cpu : Cpu)

def woken (w : Room) (t : Address) : State Lists :=
  { s with
    threads := (s.threads.erase (.room w) t).append .readyList t
    waitingIn := Function.update s.waitingIn t none }

def released (w : Room) : State Lists :=
  match s.threads (.room w) with
  | [] => s.setCounter w (succInt (s.counter w))
  | t :: _ => s.woken w t

/-- The effect of `unlock` before its `v`, once the list of held mutexes is
`mutexes`. -/
def disowned (m t : Address) (mutexes : Queues Address Address) : State Lists :=
  { s with
    mutexes
    owner := Function.update s.owner m none
    critical := Function.update s.critical m ((s.critical m).erase t) }

def unlocked (m t : Address) (mutexes : Queues Address Address) : State Lists :=
  (s.disowned m t mutexes).released (.mutex m)

def owned (t m : Address) : State Lists :=
  State.mutexHold { s with
    owner := Function.update s.owner m (some t)
    critical := Function.update s.critical m (s.critical m ++ [t]) } t m

def continued (t : Address) : State Lists :=
  let resumption := Function.update s.resumption t none
  match s.resumption t with
  | none => s
  | some (.lock m) => State.owned { s with resumption } t m
  | some (.sleep _) => { s with resumption }

def next : Address := (s.threads .readyList).headD (machine.idlethread cpu)

def dispatched : State Lists :=
  let t := s.next machine cpu
  State.continued { s with
    threads := s.threads.erase .readyList t
    life := Function.update s.life cpu (some t) } t

/-- The effect of `block` before it dispatches. -/
def blocked (t : Address) (w : Room) : State Lists :=
  { s with
    threads := s.threads.append (.room w) t
    waitingIn := Function.update s.waitingIn t (some w)
    resumption := Function.update s.resumption t w.resumption }

def buried (t : Address) : State Lists :=
  { s with destroyed := Function.update s.destroyed t true }

def pulled (i : QueueId) (t : Address) : State Lists :=
  { s with threads := s.threads.erase i t }

def parked (t : Address) : State Lists :=
  { s with threads := s.threads.append .readyList t }

def admitted (t : Address) : State Lists :=
  { s with
    threads := s.threads.append .readyList t
    readied := Function.update s.readied t true }

def flagged (t : Address) : State Lists :=
  { s with killed := Function.update s.killed t true }

end State

namespace Placed

theorem only (hplaced : Placed machine s current place)
    (hplace : place t = .queue i) : ∀ j, t ∈ s.threads j → j = i := by
  intro j hmem
  rw [hplaced.listed, hplace] at hmem
  exact (Location.queue.inj hmem).symm

theorem fresh (hplaced : Placed machine s current place)
    (hplace : ∀ i, place t ≠ .queue i) : ∀ j, t ∉ s.threads j := by
  intro j hmem
  exact hplace j ((hplaced.listed j t).mp hmem)

theorem not_destroyed (hplaced : Placed machine s current place)
    (hplace : place t ≠ .nowhere) : s.destroyed t = false := by
  by_contra hdestroyed
  rw [Bool.not_eq_false] at hdestroyed
  exact hplace ((hplaced.sits t).buried hdestroyed).2

/-- Only threads that were readied, and the idle threads, run. -/
theorem readied (hplaced : Placed machine s current place)
    (hplace : place t ≠ .nowhere) (hidle : ¬ machine.Idle t) :
    s.readied t = true := by
  by_contra hreadied
  rw [Bool.not_eq_true] at hreadied
  rcases (hplaced.sits t).unreadied hreadied with hnowhere | ⟨c, hc, -⟩
  · exact hplace hnowhere
  · exact hidle ⟨c, hc⟩

theorem readied_of_queue (hplaced : Placed machine s current place)
    (hplace : place t = .queue i) : s.readied t = true ∧ ¬ machine.Idle t := by
  have hreadied : s.readied t = true := by
    by_contra hreadied
    rw [Bool.not_eq_true] at hreadied
    rcases (hplaced.sits t).unreadied hreadied with hnowhere | ⟨c, -, hcpu⟩
    · simp [hplace] at hnowhere
    · simp [hplace] at hcpu
  refine ⟨hreadied, fun hidle => ?_⟩
  simp [((hplaced.sits t).idle hidle).1] at hreadied

theorem waitingIn_eq_none (hplaced : Placed machine s current place)
    (hplace : ∀ w, place t ≠ .queue (.room w))
    (hdestroyed : s.destroyed t = false) : s.waitingIn t = none := by
  cases hwaiting : s.waitingIn t with
  | none => rfl
  | some w =>
      exact absurd (((hplaced.sits t).waiting hdestroyed w).mp hwaiting)
        (hplace w)

theorem resumption_eq_none (hplaced : Placed machine s current place)
    (hplace : ∀ i, place t ≠ .queue i) (hdestroyed : s.destroyed t = false) :
    s.resumption t = none := by
  by_contra hresumption
  rcases (hplaced.sits t).resumes hresumption with ⟨i, hi⟩ | hdead
  · exact hplace i hi
  · simp [hdestroyed] at hdead

theorem woken (hplaced : Placed machine s current place)
    (hplace : place t = .queue (.room w)) :
    Placed machine (s.woken w t) current
      (Function.update place t (.queue .readyList)) := by
  have hdestroyed := hplaced.not_destroyed (by simp [hplace] : place t ≠ _)
  have hreadied := (hplaced.readied_of_queue hplace)
  have honly := hplaced.only hplace
  have hmem : ∀ j u, u ∈ s.threads.erase (.room w) t j ↔
      u ≠ t ∧ u ∈ s.threads j :=
    fun j u => Lists.mem_erase hplaced.nodup honly
  have hfresh : ∀ j, t ∉ s.threads.erase (.room w) t j := by
    intro j hj
    exact ((hmem j t).mp hj).1 rfl
  refine hplaced.move ?_ ?_ ?_ ?_ ?_
  · intro i u
    refine (Lists.mem_append hfresh).trans ?_
    by_cases heq : u = t <;> simp [heq, hmem]
  · intro i
    exact Lists.nodup_append (fun j => Lists.nodup_erase hplaced.nodup)
      (hfresh _)
  · intro c u
    by_cases heq : u = t
    · simp [heq, hplaced.running, hplace]
    · simp [heq]
  · intro u hne
    exact ⟨by simp [State.woken, hne], rfl, rfl, rfl, rfl⟩
  · constructor
    · intro _ w'
      simp [State.woken]
    · intro hunreadied
      simp [State.woken, hreadied.1] at hunreadied
    · intro hidle
      exact absurd hidle hreadied.2
    · intro hdead
      simp [State.woken, hdestroyed] at hdead
    · intro _ _
      simp
    · simp
    · exact fun _ => Or.inl ⟨_, rfl⟩

theorem runs (hplaced : Placed machine s current place)
    (hcurrent : current cpu = some t) :
    place t = .cpu cpu ∧ s.destroyed t = false ∧ s.waitingIn t = none ∧
      s.resumption t = none ∧ ∀ i, t ∉ s.threads i := by
  have hplace := (hplaced.running cpu t).mp hcurrent
  have hdestroyed := hplaced.not_destroyed (by simp [hplace] : place t ≠ _)
  exact ⟨hplace, hdestroyed,
    hplaced.waitingIn_eq_none (by simp [hplace]) hdestroyed,
    hplaced.resumption_eq_none (by simp [hplace]) hdestroyed,
    hplaced.fresh (by simp [hplace])⟩

theorem running_off (hplaced : Placed machine s current place)
    (hcurrent : current cpu = some t) {target : Location}
    (htarget : ∀ c, target ≠ .cpu c) (c : Cpu) (u : Address) :
    Function.update current cpu none c = some u ↔
      if u = t then target = .cpu c else current c = some u := by
  have hplace := (hplaced.running cpu t).mp hcurrent
  by_cases hc : c = cpu
  · subst hc
    by_cases heq : u = t
    · simp [heq, htarget]
    · simp [heq, hcurrent, Ne.symm heq]
  · by_cases heq : u = t
    · subst heq
      simp [hc, htarget, hplaced.running, hplace, Ne.symm hc]
    · simp [hc, heq]

theorem enter (hplaced : Placed machine s current place)
    (hcurrent : current cpu = some t) {i : QueueId}
    (hthreads : s'.threads = s.threads.append i t)
    (hothers : ∀ u, u ≠ t → Same s s' u)
    (hsits : Sits machine s' t (.queue i)) :
    Placed machine s' (Function.update current cpu none)
      (Function.update place t (.queue i)) := by
  obtain ⟨-, -, -, -, hfresh⟩ := hplaced.runs hcurrent
  refine hplaced.move ?_ ?_ ?_ hothers hsits
  · intro j u
    rw [hthreads, Lists.mem_append hfresh]
    simp
  · intro j
    rw [hthreads]
    exact Lists.nodup_append hplaced.nodup (hfresh i)
  · exact hplaced.running_off hcurrent (by simp)

theorem parked (hplaced : Placed machine s current place)
    (hcurrent : current cpu = some t) (hidle : ¬ machine.Idle t) :
    Placed machine (s.parked t) (Function.update current cpu none)
      (Function.update place t (.queue .readyList)) := by
  obtain ⟨hplace, hdestroyed, hwaiting, hresumption, -⟩ :=
    hplaced.runs hcurrent
  have hreadied := hplaced.readied (by simp [hplace] : place t ≠ _) hidle
  refine hplaced.enter hcurrent rfl (fun u _ => ⟨rfl, rfl, rfl, rfl, rfl⟩) ?_
  constructor
  · simp [State.parked, hwaiting]
  · simp [State.parked, hreadied]
  · exact fun h => absurd h hidle
  · simp [State.parked, hdestroyed]
  · simp
  · simp
  · exact fun _ => Or.inl ⟨_, rfl⟩

theorem blocked (hplaced : Placed machine s current place)
    (hcurrent : current cpu = some t) (hidle : ¬ machine.Idle t)
    (hadmits : w.Admits t) :
    Placed machine (s.blocked t w) (Function.update current cpu none)
      (Function.update place t (.queue (.room w))) := by
  obtain ⟨hplace, hdestroyed, -, -, -⟩ := hplaced.runs hcurrent
  have hreadied := hplaced.readied (by simp [hplace] : place t ≠ _) hidle
  refine hplaced.enter hcurrent rfl (fun u hne => ?_) ?_
  · exact ⟨by simp [State.blocked, hne], rfl, rfl, rfl,
      by simp [State.blocked, hne]⟩
  · constructor
    · simp [State.blocked]
    · simp [State.blocked, hreadied]
    · exact fun h => absurd h hidle
    · simp [State.blocked, hdestroyed]
    · simp
    · rintro w' hw'
      obtain rfl : w = w' := by simpa using hw'
      exact ⟨by simp [State.blocked], hadmits⟩
    · exact fun _ => Or.inl ⟨_, rfl⟩

theorem retired (hplaced : Placed machine s current place)
    (hcurrent : current cpu = some t) (hidle : ¬ machine.Idle t) :
    Placed machine (s.buried t) (Function.update current cpu none)
      (Function.update place t .nowhere) := by
  obtain ⟨hplace, hdestroyed, hwaiting, hresumption, hfresh⟩ :=
    hplaced.runs hcurrent
  have hreadied := hplaced.readied (by simp [hplace] : place t ≠ _) hidle
  refine hplaced.move ?_ hplaced.nodup
    (hplaced.running_off hcurrent (by simp)) (fun u hne => ?_) ?_
  · intro i u
    by_cases heq : u = t
    · simp [State.buried, heq, hfresh]
    · simp [State.buried, heq]
  · exact ⟨rfl, rfl, rfl, by simp [State.buried, hne], rfl⟩
  · constructor <;> simp [State.buried, hreadied, hidle]

theorem idled (hplaced : Placed machine s current place)
    (hcurrent : current cpu = some (machine.idlethread cpu)) :
    Placed machine s (Function.update current cpu none)
      (Function.update place (machine.idlethread cpu) .nowhere) := by
  obtain ⟨hplace, hdestroyed, hwaiting, hresumption, hfresh⟩ :=
    hplaced.runs hcurrent
  have hidle := (hplaced.sits (machine.idlethread cpu)).idle ⟨cpu, rfl⟩
  refine hplaced.move ?_ hplaced.nodup
    (hplaced.running_off hcurrent (by simp))
    (fun _ _ => ⟨rfl, rfl, rfl, rfl, rfl⟩) ?_
  · intro i u
    by_cases heq : u = machine.idlethread cpu
    · simp [heq, hfresh]
    · simp [heq]
  · constructor <;> simp [hwaiting, hdestroyed, hresumption, hidle]

theorem pulled (hplaced : Placed machine s current place)
    {i : QueueId} (hplace : place t = .queue i) :
    Placed machine ((s.pulled i t).buried t) current
      (Function.update place t .nowhere) := by
  have hreadied := hplaced.readied_of_queue hplace
  have hmem : ∀ j u, u ∈ s.threads.erase i t j ↔ u ≠ t ∧ u ∈ s.threads j :=
    fun j u => Lists.mem_erase hplaced.nodup (hplaced.only hplace)
  refine hplaced.move ?_ ?_ ?_ (fun u hne => ?_) ?_
  · intro j u
    refine (hmem j u).trans ?_
    by_cases heq : u = t <;> simp [heq]
  · intro j
    exact Lists.nodup_erase hplaced.nodup
  · intro c u
    by_cases heq : u = t
    · simp [heq, hplaced.running, hplace]
    · simp [heq]
  · exact ⟨rfl, rfl, rfl, by simp [State.buried, State.pulled, hne], rfl⟩
  · constructor <;>
      simp [State.buried, State.pulled, hreadied.1, hreadied.2]

theorem new (hplaced : Placed machine s current place)
    (hreadied : s.readied t = false) (hidle : ¬ machine.Idle t) :
    place t = .nowhere ∧ s.destroyed t = false := by
  constructor
  · rcases (hplaced.sits t).unreadied hreadied with hnowhere | ⟨c, hc, -⟩
    · exact hnowhere
    · exact absurd ⟨c, hc⟩ hidle
  · by_contra hdestroyed
    rw [Bool.not_eq_false] at hdestroyed
    simp [((hplaced.sits t).buried hdestroyed).1] at hreadied

theorem unreadied_resumption (hplaced : Placed machine s current place)
    (hreadied : s.readied t = false) (hidle : ¬ machine.Idle t) :
    s.resumption t = none := by
  obtain ⟨hplace, hdestroyed⟩ := hplaced.new hreadied hidle
  exact hplaced.resumption_eq_none (by simp [hplace]) hdestroyed

theorem admitted (hplaced : Placed machine s current place)
    (hreadied : s.readied t = false) (hidle : ¬ machine.Idle t) :
    Placed machine (s.admitted t) current
      (Function.update place t (.queue .readyList)) := by
  obtain ⟨hplace, hdestroyed⟩ := hplaced.new hreadied hidle
  have hfresh := hplaced.fresh (by simp [hplace] : ∀ i, place t ≠ _)
  have hwaiting := hplaced.waitingIn_eq_none (by simp [hplace]) hdestroyed
  refine hplaced.move ?_ ?_ ?_ (fun u hne => ?_) ?_
  · intro j u
    refine (Lists.mem_append hfresh).trans ?_
    simp
  · intro j
    exact Lists.nodup_append hplaced.nodup (hfresh _)
  · intro c u
    by_cases heq : u = t
    · simp [heq, hplaced.running, hplace]
    · simp [heq]
  · exact ⟨rfl, rfl, by simp [State.admitted, hne], rfl, rfl⟩
  · constructor
    · simp [State.admitted, hwaiting]
    · simp [State.admitted]
    · exact fun h => absurd h hidle
    · simp [State.admitted, hdestroyed]
    · simp
    · simp
    · exact fun _ => Or.inl ⟨_, rfl⟩

theorem flagged (hplaced : Placed machine s current place)
    (hidle : ¬ machine.Idle t) :
    Placed machine (s.flagged t) current place where
  listed := hplaced.listed
  nodup := hplaced.nodup
  running := hplaced.running
  sits u := by
    by_cases heq : u = t
    · subst heq
      have hsits := hplaced.sits u
      exact ⟨hsits.waiting, hsits.unreadied, fun h => absurd h hidle,
        hsits.buried, hsits.settled, hsits.room, hsits.resumes⟩
    · exact (hplaced.sits u).congr
        ⟨rfl, by simp [State.flagged, heq], rfl, rfl, rfl⟩

end Placed

end X86Os32.Scheduler
