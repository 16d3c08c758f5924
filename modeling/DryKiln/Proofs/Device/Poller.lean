-- The steps of a poller. Each has a form of its own, it keeps the queues within their size, and it
-- brings the poller nearer to where it has to wait, which is where settling ends; what the unit gives
-- goes through the poller in order, and nothing else does.
import DryKiln.Device.Poller
import Mathlib.Data.List.ReduceOption

namespace DryKiln
namespace Poller

variable {α : Type} {sensor : Sensor α} {now : Nat} {p q : Poller α}

/-- Neither queue holds more than it has room for. -/
structure Within (p : Poller α) : Prop where
  requests : p.requests.length ≤ capacity
  responses : p.responses.length ≤ capacity

/-- Nobody asks the poller any more, and nobody takes its readings. -/
structure Left (p : Poller α) : Prop where
  asked : p.asked = false
  heard : p.heard = false

/-- How many steps the poller can still take at one instant, or cause when its readings are
taken. -/
def load (p : Poller α) : Nat :=
  4 * p.requests.length + p.responses.length + match p.activity with
    | .finished => 0
    | .waiting => 1
    | .holding _ => 3
    | .reading _ _ => 4

/-- What a step makes of a poller. -/
inductive Worked (sensor : Sensor α) (now : Nat) (p : Poller α) : Poller α → Prop where
  | begins (number : Nat) (rest : List PollerRequest) (free : p.activity = .waiting)
      (asked : p.requests = .read :: rest) :
      Worked sensor now p { p with
        requests := rest, activity := .reading number (now + sensor.delay) }
  | stops (rest : List PollerRequest) (free : p.activity = .waiting)
      (asked : p.requests = .stop :: rest) :
      Worked sensor now p { p with requests := rest, activity := .finished }
  | ends (free : p.activity = .waiting) (nothing : p.requests = []) (left : p.asked = false) :
      Worked sensor now p { p with activity := .finished }
  | reads (number ends : Nat) (reading : α) (busy : p.activity = .reading number ends)
      (due : ends ≤ now) : Worked sensor now p { p with activity := .holding reading }
  | fails (number ends : Nat) (busy : p.activity = .reading number ends) (due : ends ≤ now) :
      Worked sensor now p { p with activity := .waiting }
  | drops (reading : α) (full : p.activity = .holding reading) (left : p.heard = false) :
      Worked sensor now p { p with activity := .finished }
  | hands (reading : α) (full : p.activity = .holding reading) (heard : p.heard = true)
      (room : p.responses.length < capacity) :
      Worked sensor now p { p with responses := p.responses ++ [reading], activity := .waiting }

theorem worked_of_step? {begun reads : Nat} (h : p.step? sensor now begun = some (q, reads)) :
    Worked sensor now p q := by
  unfold step? at h
  split at h
  · cases h
  · rename_i hwaiting
    split at h
    · rename_i rest hasked
      cases h
      exact .begins begun rest hwaiting hasked
    · rename_i rest hasked
      cases h
      exact .stops rest hwaiting hasked
    · rename_i hnothing
      split at h
      · cases h
      · rename_i hleft
        cases h
        exact .ends hwaiting hnothing (by simpa using hleft)
  · rename_i number ends hbusy
    split at h
    · rename_i hdue
      split at h
      · cases h
        exact .reads number ends _ hbusy hdue
      · cases h
        exact .fails number ends hbusy hdue
    · cases h
  · rename_i reading hfull
    split at h
    · rename_i hleft
      cases h
      exact .drops reading hfull (by simpa using hleft)
    · rename_i hheard
      split at h
      · rename_i hroom
        cases h
        exact .hands reading hfull (by simpa using hheard) hroom
      · cases h

theorem Worked.load_lt (h : Worked sensor now p q) : q.load < p.load := by
  cases h with
  | begins number rest free asked =>
    simp only [load, free, asked, List.length_cons]
    omega
  | stops rest free asked =>
    simp only [load, free, asked, List.length_cons]
    omega
  | hands reading full heard room =>
    simp only [load, full, List.length_append, List.length_singleton]
    omega
  | _ => simp [load, *]

theorem Worked.weight_lt (h : Worked sensor now p q) : q.weight < p.weight := by
  cases h with
  | begins number rest free asked =>
    simp only [weight, free, asked, List.length_cons]
    omega
  | stops rest free asked =>
    simp only [weight, free, asked, List.length_cons]
    omega
  | _ => simp [weight, *]

/-- As many steps as a poller can take are enough to get where it has to wait. -/
theorem step?_steps {count : Nat} (begun : Nat) (hcount : p.weight ≤ count) :
    (steps sensor now count begun p).1.step? sensor now (steps sensor now count begun p).2 =
      none := by
  induction count generalizing p begun with
  | zero =>
    cases hstep : p.step? sensor now begun with
    | none => exact hstep
    | some next =>
      have := (worked_of_step? hstep).weight_lt
      omega
  | succ count ih =>
    rw [steps]
    split
    · next hwaits => exact hwaits
    · next hstep =>
      have := (worked_of_step? hstep).weight_lt
      exact ih _ (by omega)

/-- A poller that has settled has to wait. -/
theorem step?_settle (sensor : Sensor α) (now begun : Nat) (p : Poller α) :
    (p.settle sensor now begun).1.step? sensor now (p.settle sensor now begun).2 = none :=
  step?_steps begun (Nat.le_refl p.weight)

theorem Worked.within (h : Worked sensor now p q) (hp : p.Within) : q.Within := by
  obtain ⟨hrequests, hresponses⟩ := hp
  cases h with
  | begins number rest free asked =>
    rw [asked, List.length_cons] at hrequests
    exact ⟨by dsimp only; omega, hresponses⟩
  | stops rest free asked =>
    rw [asked, List.length_cons] at hrequests
    exact ⟨by dsimp only; omega, hresponses⟩
  | hands reading full heard room =>
    exact ⟨hrequests, by simpa using Nat.succ_le_of_lt room⟩
  | _ => exact ⟨hrequests, hresponses⟩

theorem Worked.left (h : Worked sensor now p q) (hp : p.Left) : q.Left := by
  cases h <;> exact ⟨hp.asked, hp.heard⟩

/-- A read that keeps its poller waiting ends later. -/
theorem lt_of_nextEnd {begun ends : Nat} (h : p.step? sensor now begun = none)
    (hends : p.nextEnd = some ends) : now < ends := by
  unfold nextEnd at hends
  split at hends
  · rename_i number last hbusy
    cases hends
    unfold step? at h
    rw [hbusy] at h
    dsimp only at h
    split at h
    · split at h <;> cases h
    · rename_i hlater
      exact Nat.lt_of_not_le hlater
  · cases hends

/-- A poller that has been left and has to wait is finished, or reads and waits for the end. -/
theorem Left.finished_or_reads (hp : p.Left) {begun : Nat} (h : p.step? sensor now begun = none) :
    p.isFinished = true ∨ ∃ ends, p.nextEnd = some ends ∧ now < ends := by
  cases hactivity : p.activity with
  | finished => exact .inl (by simp [isFinished, hactivity])
  | reading number ends =>
    have hends : p.nextEnd = some ends := by simp [nextEnd, hactivity]
    exact .inr ⟨ends, hends, lt_of_nextEnd h hends⟩
  | waiting =>
    unfold step? at h
    rw [hactivity] at h
    dsimp only at h
    split at h
    · cases h
    · cases h
    · simp [hp.asked] at h
  | holding reading => simp [step?, hactivity, hp.heard] at h

/-- Whatever becomes of a request, it goes nowhere but into the queue. -/
theorem send_eq (p : Poller α) (request : PollerRequest) :
    ∃ requests, (p.send request).1 = { p with requests } := by
  unfold send
  split
  · exact ⟨p.requests, rfl⟩
  · split
    · exact ⟨p.requests, rfl⟩
    · exact ⟨p.requests ++ [request], rfl⟩

theorem Within.send (hp : p.Within) (request : PollerRequest) : (p.send request).1.Within := by
  unfold Poller.send
  split
  · exact hp
  · split
    · exact hp
    · rename_i hroom
      refine ⟨?_, hp.responses⟩
      simp only [List.length_append, List.length_singleton]
      omega

theorem load_send_le (p : Poller α) (request : PollerRequest) :
    (p.send request).1.load ≤ p.load + 4 := by
  unfold send
  split
  · simp
  · split
    · simp
    · simp only [load, List.length_append, List.length_singleton]
      omega

theorem Within.taken {reading : α} {rest : List α} (hp : p.Within)
    (h : p.responses = reading :: rest) : Within { p with responses := rest } := by
  have hresponses := hp.responses
  rw [h, List.length_cons] at hresponses
  exact ⟨hp.requests, Nat.le_of_succ_le hresponses⟩

theorem responses_of_receive {rest : Poller α} {reading : α}
    (h : p.receive = (rest, .reading reading)) :
    ∃ others, p.responses = reading :: others ∧ rest = { p with responses := others } := by
  unfold receive at h
  split at h
  · rename_i first others hthere
    cases h
    exact ⟨others, hthere, rfl⟩
  · obtain ⟨-, hnothing⟩ := Prod.mk.inj h
    split at hnothing <;> cases hnothing

theorem receive_of_responses {reading : α} {rest : List α} (h : p.responses = reading :: rest) :
    p.receive = ({ p with responses := rest }, .reading reading) := by
  unfold receive
  rw [h]

theorem responses_of_not_receive (h : ∀ rest reading, p.receive ≠ (rest, .reading reading)) :
    p.responses = [] := by
  cases hthere : p.responses with
  | nil => rfl
  | cons reading others =>
    exact absurd (by simp [receive, hthere]) (h { p with responses := others } reading)

theorem load_taken_lt {reading : α} {rest : List α} (h : p.responses = reading :: rest) :
    load { p with responses := rest } < p.load := by
  simp only [load, h, List.length_cons]
  omega

theorem load_le (h : p.Within) : p.load ≤ 24 := by
  obtain ⟨hrequests, hresponses⟩ := h
  unfold capacity at hrequests hresponses
  unfold load
  split <;> omega

/-! ## What a step brings -/

/-- The reading for which there has been no room yet. -/
def held (p : Poller α) : List α :=
  match p.activity with
  | .holding reading => [reading]
  | _ => []

/-- How a read has ended between two states of a poller: with a reading or without one. -/
def ended (p next : Poller α) : List (Option α) :=
  match p.activity, next.activity with
  | .reading _ _, .holding reading => [some reading]
  | .reading _ _, .waiting => [none]
  | _, _ => []

/-- How many reads can still end when nobody asks any more. -/
def pending (p : Poller α) : Nat :=
  p.requests.length + match p.activity with
    | .reading _ _ => 1
    | _ => 0

/-- How many readings can still come when nobody takes them any more. -/
def spare (p : Poller α) : Nat :=
  match p.activity with
  | .waiting | .reading _ _ => 1
  | .holding _ | .finished => 0

theorem held_spare_le (p : Poller α) : p.held.length + p.spare ≤ 1 := by
  unfold held spare
  cases p.activity <;> simp

theorem pending_le (h : p.Within) : p.pending ≤ capacity + 1 := by
  have hrequests := h.requests
  unfold pending
  split <;> omega

theorem Worked.pending_le (h : Worked sensor now p q) :
    (p.ended q).length + q.pending ≤ p.pending := by
  cases h with
  | begins number rest free asked => simp [ended, pending, free, asked]
  | stops rest free asked => simp [ended, pending, free, asked]
  | _ => simp [ended, pending, Nat.add_comm, *]

/-- What the unit gives waits behind what it has given before. -/
theorem Worked.flow (h : Worked sensor now p q) (hheard : p.heard = true) :
    q.responses ++ q.held = p.responses ++ p.held ++ (p.ended q).reduceOption := by
  cases h with
  | drops reading full left => simp [left] at hheard
  | _ => simp [ended, held, List.reduceOption, *]

/-- When nobody takes the readings any more, one more read may succeed. -/
theorem Worked.unheard (h : Worked sensor now p q) (hunheard : p.heard = false) :
    q.responses = p.responses ∧ (p.ended q).reduceOption.length + q.spare ≤ p.spare := by
  cases h with
  | hands reading full heard room => simp [heard] at hunheard
  | _ => simp [ended, spare, List.reduceOption, *]

theorem Worked.asked_eq (h : Worked sensor now p q) : q.asked = p.asked := by
  cases h <;> rfl

theorem Worked.heard_eq (h : Worked sensor now p q) : q.heard = p.heard := by
  cases h <;> rfl

/-- A read that ends without a reading leaves everything else as it is. -/
theorem Worked.failed (h : Worked sensor now p q) (hnone : p.ended q = [none]) :
    q = { p with activity := .waiting } := by
  cases h with
  | fails number ends busy due => rfl
  | _ => simp [ended, *] at hnone

end Poller
end DryKiln
