import Zub1cg.Firmware.Connection
import Zub1cg.Firmware.Controller.Command
import Zub1cg.Firmware.FrameDecoder.Streaming

/-!
# A control request that is turned down

A call of `ControlConnection::feed` fails in the length decoder, for the size of the response
buffer, or in the command. Each leaves a decoder that holds nothing and a controller that has not
touched the device. What a decoder holds is all that later calls depend on.

## Main definitions

- `ControlConnection.Reachable` — the connections that calls lead to
- `ControlConnection.feeds` — calls one after the other

## Main results

- `feedFrom_same` — a call depends on what the decoder holds only
- `feedFrom_error` — what a failing call leaves behind
- `rejection_atomic` — the same for control connections
-/

namespace Firmware

variable {Io : Type} {N : ℕ}

/-! ### One call -/

/-- **A call depends on what the decoder holds only.** -/
theorem feedFrom_same (handle : Handler Io) (index : ℕ) (data : List UInt8) {d e : FrameDecoder N}
    {pending : List UInt8} (hd : d.Holds pending) (he : e.Holds pending) (controller : Controller Io)
    (response : List UInt8) :
    (feedFrom handle index data d controller response).result =
        (feedFrom handle index data e controller response).result ∧
      (feedFrom handle index data d controller response).controller =
        (feedFrom handle index data e controller response).controller ∧
      (feedFrom handle index data d controller response).response =
        (feedFrom handle index data e controller response).response ∧
      ∃ later, (feedFrom handle index data d controller response).decoder.Holds later ∧
        (feedFrom handle index data e controller response).decoder.Holds later := by
  induction data generalizing index d e pending with
  | nil => exact ⟨rfl, rfl, rfl, pending, hd, he⟩
  | cons byte rest ih =>
    have hone := FrameDecoder.push_lengthUnframe hd byte
    have htwo := FrameDecoder.push_lengthUnframe he byte
    rw [feedFrom, feedFrom]
    rcases hpushd : d.push byte with ⟨resultd, d'⟩
    rcases hpushe : e.push byte with ⟨resulte, e'⟩
    rw [hpushd] at hone
    rw [hpushe] at htwo
    obtain hall | ⟨n, hall, -⟩ | ⟨payload, hall, -⟩ :=
      FrameDecoder.lengthUnframe_cases (N := N) (pending ++ [byte])
    · rw [hall] at hone htwo
      obtain ⟨rfl, hd'⟩ := hone
      obtain ⟨rfl, he'⟩ := htwo
      exact ih (index + 1) hd' he'
    · rw [hall] at hone htwo
      obtain ⟨rfl, hd'⟩ := hone
      obtain ⟨rfl, he'⟩ := htwo
      exact ⟨rfl, rfl, rfl, [], hd'.holds, he'.holds⟩
    · rw [hall] at hone htwo
      obtain ⟨rfl, hframed⟩ := hone
      obtain ⟨rfl, hframee⟩ := htwo
      dsimp only at hframed hframee ⊢
      by_cases hroom : response.length < 4
      · rw [if_pos hroom, if_pos hroom]
        exact ⟨rfl, rfl, rfl, [], d'.reset_holds, e'.reset_holds⟩
      · rw [if_neg hroom, if_neg hroom, hframed, hframee]
        rcases handle ((some payload).getD []) controller (response.drop 4) with ⟨length, c, body⟩
        cases length with
        | ok length => exact ⟨rfl, rfl, rfl, [], d'.reset_holds, e'.reset_holds⟩
        | error err => exact ⟨rfl, rfl, rfl, [], d'.reset_holds, e'.reset_holds⟩

/-- A handler that fails leaves the controller alone. -/
def Handler.Atomic (handle : Handler Io) : Prop :=
  ∀ frame controller body e, (handle frame controller body).1 = .error e →
    (handle frame controller body).2.1 = controller ∧ e ≠ .Frame .FramePending

/-- **What a failing call leaves behind**: a decoder that holds nothing, and the controller as it
was. -/
theorem feedFrom_error {handle : Handler Io} (hatomic : handle.Atomic) (index : ℕ)
    (data : List UInt8) {d : FrameDecoder N} {pending : List UInt8} (hd : d.Holds pending)
    (controller : Controller Io) (response : List UInt8) {err : ServiceError}
    (h : (feedFrom handle index data d controller response).result = .error err) :
    (feedFrom handle index data d controller response).decoder.Holds [] ∧
      (feedFrom handle index data d controller response).controller = controller ∧
      err ≠ .Frame .FramePending := by
  induction data generalizing index d pending with
  | nil => cases h
  | cons byte rest ih =>
    have hbyte := FrameDecoder.push_lengthUnframe hd byte
    rw [feedFrom] at h ⊢
    rcases hpush : d.push byte with ⟨result, d'⟩
    rw [hpush] at hbyte h
    obtain hall | ⟨n, hall, -⟩ | ⟨payload, hall, -⟩ :=
      FrameDecoder.lengthUnframe_cases (N := N) (pending ++ [byte])
    · rw [hall] at hbyte
      obtain ⟨rfl, hd'⟩ := hbyte
      exact ih (index + 1) hd' h
    · -- the declared length is too large
      rw [hall] at hbyte
      obtain ⟨rfl, hd'⟩ := hbyte
      cases h
      exact ⟨hd'.holds, rfl, by simp⟩
    · rw [hall] at hbyte
      obtain ⟨rfl, -⟩ := hbyte
      dsimp only at h ⊢
      by_cases hroom : response.length < 4
      · -- the response buffer has no room for a length
        rw [if_pos hroom] at h ⊢
        cases h
        exact ⟨d'.reset_holds, rfl, by decide⟩
      · -- the handler fails
        rw [if_neg hroom] at h ⊢
        have hquiet := hatomic (d'.frame.getD []) controller (response.drop 4)
        rcases hhandle : handle (d'.frame.getD []) controller (response.drop 4) with
          ⟨length, c, body⟩
        rw [hhandle] at hquiet h
        cases length with
        | ok length => cases h
        | error e =>
          cases h
          exact ⟨d'.reset_holds, hquiet err rfl⟩

/-- A call that makes no answer and does not fail leaves the controller alone. -/
theorem feedFrom_unanswered {handle : Handler Io} (index : ℕ) (data : List UInt8)
    {d : FrameDecoder N} (controller : Controller Io) (response : List UInt8) {consumed : ℕ}
    (h : (feedFrom handle index data d controller response).result = .ok ⟨consumed, none⟩) :
    (feedFrom handle index data d controller response).controller = controller := by
  induction data generalizing index d with
  | nil => rfl
  | cons byte rest ih =>
    rw [feedFrom] at h ⊢
    rcases hpush : d.push byte with ⟨result, d'⟩
    rw [hpush] at h
    cases result with
    | error e => rfl
    | ok complete =>
      cases complete with
      | false => exact ih (index + 1) h
      | true =>
        dsimp only at h ⊢
        split at h
        · cases h
        · next hroom =>
          rw [if_neg hroom]
          rcases hhandle : handle (d'.frame.getD []) controller (response.drop 4) with
            ⟨length, c, body⟩
          rw [hhandle] at h
          cases length <;> cases h

/-! ### Control connections -/

theorem controlHandler_atomic [RegisterIo Io] : (controlHandler : Handler Io).Atomic := by
  intro frame controller body e h
  by_cases haccepts : Accepts frame body.length
  · have hok := (Controller.command_isOk_iff frame body controller).mpr haccepts
    rw [controlHandler] at h
    rcases hcommand : controller.command frame body with ⟨length, c, body'⟩
    rw [hcommand] at h hok
    cases length with
    | ok length => cases h
    | error u => cases hok
  · rw [controlHandler] at h ⊢
    rw [Controller.command_of_rejects haccepts] at h ⊢
    cases h
    exact ⟨rfl, by decide⟩

namespace ControlConnection

/-- The connections that calls lead to, on any device, with any input and any response buffer. -/
inductive Reachable : ControlConnection → Prop
  | new : Reachable new
  | feed {self : ControlConnection} (h : Reachable self) {Io : Type} [RegisterIo Io]
      (input : List UInt8) (controller : Controller Io) (response : List UInt8) :
      Reachable ⟨(self.feed input controller response).decoder⟩

/-- A connection between two calls holds the beginning of a frame. -/
theorem Reachable.holds {self : ControlConnection} (h : self.Reachable) :
    ∃ pending, self.decoder.Holds pending := by
  induction h with
  | new => exact ⟨[], FrameDecoder.new_holds⟩
  | feed h input controller response ih =>
    obtain ⟨pending, hd⟩ := ih
    obtain ⟨-, -, -, later, hlater, -⟩ :=
      feedFrom_same controlHandler 0 input hd hd controller response
    exact ⟨later, hlater⟩

variable [RegisterIo Io]

/-- Calls one after the other: what each returns and leaves in its response buffer, and the
controller after them. -/
def feeds (self : ControlConnection) (controller : Controller Io) :
    List (List UInt8 × List UInt8) →
      List (Except ServiceError ServiceReply × List UInt8) × Controller Io
  | [] => ([], controller)
  | (input, response) :: calls =>
    let outcome := self.feed input controller response
    let (answers, controller) := feeds ⟨outcome.decoder⟩ outcome.controller calls
    ((outcome.result, outcome.response) :: answers, controller)

/-- Connections that hold the same cannot be told apart. -/
theorem feeds_same {self other : ControlConnection} {pending : List UInt8}
    (hself : self.decoder.Holds pending) (hother : other.decoder.Holds pending)
    (controller : Controller Io) (calls : List (List UInt8 × List UInt8)) :
    self.feeds controller calls = other.feeds controller calls := by
  induction calls generalizing self other pending controller with
  | nil => rfl
  | cons call calls ih =>
    obtain ⟨input, response⟩ := call
    obtain ⟨hresult, hcontroller, hresponse, later, hself', hother'⟩ :=
      feedFrom_same controlHandler 0 input hself hother controller response
    have hrest := @ih ⟨_⟩ ⟨_⟩ later hself' hother'
    rw [feeds, feeds, feed, feed, hresult, hcontroller, hresponse]
    dsimp only
    rw [hrest]

/-- **A control request is turned down as a whole.** If a call on a reachable connection fails, the
device and the record of its operations are as before; they are as well after every call that took
in a part of the request. Afterwards the connection answers all further calls as a new one, and the
failure is never a pending frame. -/
theorem rejection_atomic {self : ControlConnection} (hself : self.Reachable) (input : List UInt8)
    (controller : Controller (Recorded Io)) (response : List UInt8) :
    (∀ consumed, (self.feed input controller response).result = .ok ⟨consumed, none⟩ →
      (self.feed input controller response).controller = controller) ∧
    ∀ err, (self.feed input controller response).result = .error err →
      (self.feed input controller response).controller = controller ∧
      (∀ (later : Controller Io) calls,
        ControlConnection.feeds ⟨(self.feed input controller response).decoder⟩ later calls =
          new.feeds later calls) ∧
      err ≠ .Frame .FramePending := by
  refine ⟨fun consumed h => feedFrom_unanswered 0 input controller response h, fun err h => ?_⟩
  obtain ⟨pending, hd⟩ := hself.holds
  obtain ⟨hdecoder, hcontroller, herr⟩ :=
    feedFrom_error controlHandler_atomic 0 input hd controller response h
  exact ⟨hcontroller, fun later calls => feeds_same hdecoder FrameDecoder.new_holds later calls,
    herr⟩

/-- A length of 65535 is turned down; the `Start` request behind it is carried out. -/
theorem rejection_atomic_too_large :
    (new.feed [0xff, 0xff, 0, 0] (⟨⟨Blank.mk, []⟩⟩ : Controller (Recorded Blank)) []).result =
        .error (.Frame (.TooLarge 65535)) ∧
      ControlConnection.feeds
          ⟨(new.feed [0xff, 0xff, 0, 0] (⟨⟨Blank.mk, []⟩⟩ : Controller (Recorded Blank)) []).decoder⟩
          (⟨Blank.mk⟩ : Controller Blank) [([3, 0, 0, 0, 1, 0, 3], List.replicate 5 0)] =
        new.feeds ⟨Blank.mk⟩ [([3, 0, 0, 0, 1, 0, 3], List.replicate 5 0)] :=
  have hrejected : (new.feed [0xff, 0xff, 0, 0]
      (⟨⟨Blank.mk, []⟩⟩ : Controller (Recorded Blank)) []).result =
        .error (.Frame (.TooLarge 65535)) := rfl
  ⟨hrejected, ((rejection_atomic .new [0xff, 0xff, 0, 0] ⟨⟨Blank.mk, []⟩⟩ []).2 _ hrejected).2.1 _ _⟩

end ControlConnection

end Firmware
