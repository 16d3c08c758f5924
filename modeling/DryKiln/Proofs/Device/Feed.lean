-- The readings of one unit on their way. A feed is a poller together with what has become of its
-- reads. Whatever is done with it, the readings that have been taken from it are the first ones that
-- the unit has given, and the others are on their way or have been left behind at the end.
import DryKiln.Proofs.Device.Poller

namespace DryKiln

/-- A poller, and how its reads have ended, in order: with a reading or without one. -/
structure Feed (α : Type) where
  poller : Poller α
  outcomes : List (Option α)

namespace Feed

/-- What may be done with a feed, apart from taking its readings. -/
inductive Task where
  | request (request : PollerRequest)
  | hangUp
  | deafen
deriving DecidableEq, Repr

variable {α : Type}

/-- A feed that has not been asked anything. -/
def fresh : Feed α := ⟨.fresh, []⟩

/-- The readings that the unit has given, in order. -/
def readings (feed : Feed α) : List α := feed.outcomes.reduceOption

/-- The feed after a step of its poller. -/
def worked (feed : Feed α) (next : Poller α) : Feed α :=
  ⟨next, feed.outcomes ++ feed.poller.ended next⟩

/-- A poller with which something has been done. -/
def Task.act (p : Poller α) : Task → Poller α
  | .request kind => (p.send kind).1
  | .hangUp => p.hangUp
  | .deafen => p.deafen

def perform (feed : Feed α) (task : Task) : Feed α := { feed with poller := task.act feed.poller }

theorem perform_asked (feed : Feed α) (task : Task) :
    (feed.perform task).poller.asked = if task = .hangUp then false else feed.poller.asked := by
  cases task with
  | request request =>
    obtain ⟨requests, hrequests⟩ := feed.poller.send_eq request
    simp [perform, Task.act, hrequests]
  | hangUp | deafen => rfl

theorem perform_heard (feed : Feed α) (task : Task) :
    (feed.perform task).poller.heard = if task = .deafen then false else feed.poller.heard := by
  cases task with
  | request request =>
    obtain ⟨requests, hrequests⟩ := feed.poller.send_eq request
    simp [perform, Task.act, hrequests]
  | hangUp | deafen => rfl

/-- Where the readings of a feed are, of which these have been recorded. As long as somebody takes
them, the others wait; when nobody does any more, some have been left behind. -/
structure Accounts (feed : Feed α) (recorded : List α) : Prop where
  within : feed.poller.Within
  heard : feed.poller.heard = true →
    feed.readings = recorded ++ (feed.poller.responses ++ feed.poller.held)
  unheard : feed.poller.heard = false → feed.poller.responses = [] ∧
    ∃ lost, feed.readings = recorded ++ lost ∧
      lost.length + feed.poller.spare ≤ Poller.capacity + 1

variable {feed : Feed α} {recorded : List α}

theorem accounts_fresh : Accounts (fresh : Feed α) [] :=
  ⟨⟨Nat.zero_le _, Nat.zero_le _⟩, fun _ => rfl, nofun⟩

/-- What has not been recorded are at most the readings that wait and the one that is handed over. -/
theorem Accounts.rest (h : feed.Accounts recorded) :
    ∃ rest, feed.readings = recorded ++ rest ∧ rest.length ≤ Poller.capacity + 1 := by
  cases hheard : feed.poller.heard with
  | true =>
    refine ⟨_, h.heard hheard, ?_⟩
    have hresponses := h.within.responses
    have hheld := feed.poller.held_spare_le
    rw [List.length_append]
    omega
  | false =>
    obtain ⟨-, lost, hreadings, hlost⟩ := h.unheard hheard
    exact ⟨lost, hreadings, Nat.le_trans (Nat.le_add_right _ _) hlost⟩

theorem Accounts.send (h : feed.Accounts recorded) (request : PollerRequest) :
    (feed.perform (.request request)).Accounts recorded := by
  have hwithin := h.within.send request
  obtain ⟨requests, hrequests⟩ := feed.poller.send_eq request
  rw [hrequests] at hwithin
  simp only [perform, Task.act, hrequests]
  exact ⟨hwithin, h.heard, h.unheard⟩

theorem Accounts.deafen (h : feed.Accounts recorded) : (feed.perform .deafen).Accounts recorded := by
  refine ⟨⟨h.within.requests, Nat.zero_le _⟩, nofun, fun _ => ⟨rfl, ?_⟩⟩
  cases hheard : feed.poller.heard with
  | true =>
    -- what waits in the queue is left behind
    refine ⟨_, h.heard hheard, ?_⟩
    have hresponses := h.within.responses
    have hheld := feed.poller.held_spare_le
    have hspare : (feed.perform .deafen).poller.spare = feed.poller.spare := rfl
    rw [List.length_append, hspare]
    omega
  | false => exact (h.unheard hheard).2

theorem Accounts.perform (h : feed.Accounts recorded) (task : Task) :
    (feed.perform task).Accounts recorded := by
  cases task with
  | request request => exact h.send request
  | hangUp => exact ⟨⟨h.within.requests, h.within.responses⟩, h.heard, h.unheard⟩
  | deafen => exact h.deafen

/-- The reading that is taken is the next one. -/
theorem Accounts.taken (h : feed.Accounts recorded) {rest : Poller α} {reading : α}
    (hfound : feed.poller.receive = (rest, .reading reading)) :
    Accounts { feed with poller := rest } (recorded ++ [reading]) := by
  obtain ⟨others, hresponses, rfl⟩ := Poller.responses_of_receive hfound
  refine ⟨h.within.taken hresponses, fun hheard => ?_, fun hunheard => ?_⟩
  · have hreadings := h.heard hheard
    rw [hresponses] at hreadings
    rw [List.append_assoc]
    exact hreadings
  · have hnone := (h.unheard hunheard).1
    rw [hresponses] at hnone
    cases hnone

theorem Accounts.worked {sensor : Sensor α} {now : Nat} {next : Poller α}
    (h : feed.Accounts recorded) (hworked : feed.poller.Worked sensor now next) :
    (feed.worked next).Accounts recorded := by
  have hheard := hworked.heard_eq
  have hreadings : (feed.worked next).readings =
      feed.readings ++ (feed.poller.ended next).reduceOption := List.filterMap_append
  refine ⟨hworked.within h.within, fun hnext => ?_, fun hnext => ?_⟩
  · have hbefore : feed.poller.heard = true := hheard ▸ hnext
    rw [hreadings, h.heard hbefore, List.append_assoc, ← hworked.flow hbefore]
    rfl
  · have hbefore : feed.poller.heard = false := hheard ▸ hnext
    obtain ⟨hresponses, lost, hlost, hlength⟩ := h.unheard hbefore
    obtain ⟨hsame, hspare⟩ := hworked.unheard hbefore
    refine ⟨hsame.trans hresponses, lost ++ (feed.poller.ended next).reduceOption, ?_, ?_⟩
    · rw [hreadings, hlost, List.append_assoc]
    · have hpoller : (feed.worked next).poller = next := rfl
      rw [List.length_append, hpoller]
      omega

/-! ## Feeds that are left -/

/-- Nothing is left to let go of. -/
theorem perform_of_left (hleft : feed.poller.Left) (hnone : feed.poller.responses = [])
    {task : Task} (htask : ∀ request, task ≠ .request request) : feed.perform task = feed := by
  obtain ⟨⟨requests, asked, responses, heard, activity⟩, outcomes⟩ := feed
  obtain ⟨rfl, rfl⟩ := hleft
  obtain rfl : responses = [] := hnone
  cases task with
  | request request => exact absurd rfl (htask request)
  | hangUp | deafen => rfl

/-- The reads that have ended and those that can still end. -/
theorem outcomes_worked_le {sensor : Sensor α} {now : Nat} {next : Poller α}
    (h : feed.poller.Worked sensor now next) :
    (feed.worked next).outcomes.length + next.pending ≤
      feed.outcomes.length + feed.poller.pending := by
  have hpending := h.pending_le
  simp only [worked, List.length_append]
  omega

/-- A turn of the poller: a step, if it need not wait. -/
def turn (feed : Feed α) (sensor : Sensor α) (now begun : Nat) : Feed α :=
  match feed.poller.step? sensor now begun with
  | some (next, _) => feed.worked next
  | none => feed

/-- A poller that has been left and is not finished does something in its turn, unless its read has
still to end. -/
theorem load_turn_lt (sensor : Sensor α) {now : Nat} (begun : Nat) (hleft : feed.poller.Left)
    (hgoing : feed.poller.isFinished = false)
    (hdue : ∀ ends, feed.poller.nextEnd = some ends → ends ≤ now) :
    (feed.turn sensor now begun).poller.load < feed.poller.load := by
  unfold turn
  split
  · rename_i next reads hstep
    exact (Poller.worked_of_step? hstep).load_lt
  · rename_i hstuck
    rcases hleft.finished_or_reads hstuck with hfinished | ⟨ends, hends, hlater⟩
    · rw [hgoing] at hfinished
      cases hfinished
    · have hle := hdue ends hends
      omega

end Feed
end DryKiln
