import Typist.Message.Response
import Typist.Proofs.Json.Varying

/-!
# Messages survive the wire

What the daemon writes as a response or as a notification is read as the same response or
notification, whatever its texts and numbers are. That holds also if the members of its objects come
in another order, the tag among them, and if there are strings under names that it does not know.
-/

namespace Typist

open Json (Record Tagged Written)

/-! ## Fields -/

namespace Json.Field

/-- Nothing varies but objects. -/
theorem takes_of_read {β : Type} {f : Field β} {j : Json} {b : β} (hj : ∀ ms, j ≠ .record ms)
    (hread : f.read j = .ok b) : f.Takes j b := by
  intro j' hvaries
  rwa [hvaries.eq_of_ne_record hj]

theorem takes_text (name s : String) : (Field.text name).Takes (.text s) s :=
  takes_of_read nofun rfl

theorem takes_bool (name : String) (b : Bool) : (Field.bool name).Takes (.bool b) b :=
  takes_of_read nofun rfl

theorem takes_count (name : String) (w : UInt64) :
    (Field.count name).Takes (.natural w.toNat) w :=
  takes_of_read nofun (asWord_natural w "usize")

theorem takes_word (name : String) (w : UInt64) :
    (Field.word name).Takes (.natural w.toNat) w :=
  takes_of_read nofun (asWord_natural w "u64")

end Json.Field

open Json.Field

theorem written_tagged {depth : Nat} {variant : String} {ms : List (String × Json)}
    (h : ∀ m ∈ ms, Written depth m.2) : Written (depth + 1) (.tagged variant ms) :=
  .record (List.forall_mem_cons.mpr ⟨.text variant, h⟩)

/-! ## Events -/

namespace Event

theorem written (e : Event) : Written 1 e.toJson := by
  cases e with
  | hotkeyRegistered hotkey => exact written_tagged (by simp [Written.text])
  | hotkeyUnregistered | hotkeyTriggered | listenerRestarted => exact written_tagged nofun
  | triggerRejected reason => exact written_tagged (by simp [Written.text])
  | sequenceStarted actions => exact written_tagged (by simp [Written.word])
  | sequenceFinished actions durationMs => exact written_tagged (by simp [Written.word])
  | sequenceFailed error => exact written_tagged (by simp [Written.text])

/-- An event is read, however it varies. -/
theorem read_of_varies {e : Event} {j : Json} (hj : e.toJson.Varies j) {extent : Json.Extent}
    {depth : Nat} (hreadable : j.isReadable (depth + 1) = true) :
    form.read extent depth j = .ok e := by
  cases e with
  | hotkeyRegistered hotkey =>
    exact Tagged.read_of_varies (.record (Record.makes_one _ _ (takes_text "hotkey" hotkey)))
      rfl rfl hj hreadable
  | hotkeyUnregistered | hotkeyTriggered | listenerRestarted =>
    exact Tagged.read_of_varies .unit rfl rfl hj hreadable
  | triggerRejected reason =>
    exact Tagged.read_of_varies (.record (Record.makes_one _ _ (takes_text "reason" reason)))
      rfl rfl hj hreadable
  | sequenceStarted actions =>
    exact Tagged.read_of_varies (.record (Record.makes_one _ _ (takes_count "actions" actions)))
      rfl rfl hj hreadable
  | sequenceFinished actions durationMs =>
    exact Tagged.read_of_varies
      (.record (Record.makes_two _ _ (by decide) (takes_count "actions" actions)
        (takes_word "duration_ms" durationMs))) rfl rfl hj hreadable
  | sequenceFailed error =>
    exact Tagged.read_of_varies (.record (Record.makes_one _ _ (takes_text "error" error)))
      rfl rfl hj hreadable

end Event

/-! ## Notifications -/

namespace Notification

theorem written (n : Notification) : Written 2 n.toJson :=
  written_tagged (by simp [n.event.written])

theorem takes_event (e : Event) : eventField.Takes e.toJson e :=
  fun _ hj ↦ Event.read_of_varies hj ((hj.written e.written).isReadable (by decide))

/-- A notification is read, however it varies. -/
theorem ofBytes_of_varies {n : Notification} {j : Json} (hj : n.toJson.Varies j) :
    ofBytes j.bytes = .ok n := by
  have hwritten : Written 2 j := hj.written n.written
  rw [ofBytes, Tagged.decode, hwritten.isReadBack.decode_bytes]
  exact Tagged.read_of_varies (.record (Record.makes_one _ _ (takes_event n.event))) rfl rfl
    hj (hwritten.isReadable (by decide))

end Notification

/-! ## Responses -/

namespace Status

theorem takes_state (state : DaemonState) : stateField.Takes (.text state.name) state :=
  takes_of_read nofun (by cases state <;> rfl)

theorem takes_hotkey (hotkey : Option String) :
    hotkeyField.Takes (.optionalText hotkey) hotkey := by
  cases hotkey with
  | none => exact takes_of_read nofun rfl
  | some s => exact takes_of_read nofun rfl

theorem makes (s : Status) : form.Makes s.members s where
  closed := rfl
  accepts :=
    .cons (takes_text "version" s.version).accepts <|
    .cons (takes_state s.state).accepts <|
    .cons (takes_bool "hotkey_registered" s.hotkeyRegistered).accepts <|
    .cons (takes_hotkey s.hotkey).accepts <|
    .cons (takes_bool "armed" s.armed).accepts <|
    .cons (takes_bool "injection_available" s.injectionAvailable).accepts <|
    .cons (takes_word "uptime_secs" s.uptimeSecs).accepts .nil
  nodup := by simp [members]
  build found hfound := by
    simp only [form,
      (takes_text "version" s.version).get hfound (by simp [members, Json.Field.text]),
      (takes_state s.state).get hfound (by simp [members, stateField]),
      (takes_bool "hotkey_registered" s.hotkeyRegistered).get hfound
        (by simp [members, Json.Field.bool]),
      (takes_hotkey s.hotkey).get hfound (by simp [members, hotkeyField]),
      (takes_bool "armed" s.armed).get hfound (by simp [members, Json.Field.bool]),
      (takes_bool "injection_available" s.injectionAvailable).get hfound
        (by simp [members, Json.Field.bool]),
      (takes_word "uptime_secs" s.uptimeSecs).get hfound (by simp [members, Json.Field.word])]
    rfl

end Status

namespace Response

theorem written (r : Response) : Written 1 r.toJson := by
  cases r with
  | pong | armed | hotkeyUnregistered | subscribed => exact written_tagged nofun
  | status s =>
    exact written_tagged (by
      simp [Status.members, Written.text, Written.bool, Written.word, Written.optionalText])
  | typed actions => exact written_tagged (by simp [Written.word])
  | disarmed wasArmed => exact written_tagged (by simp [Written.bool])
  | hotkeyRegistered hotkey => exact written_tagged (by simp [Written.text])
  | cancelled wasRunning => exact written_tagged (by simp [Written.bool])
  | error code message => exact written_tagged (by simp [Written.text])

/-- A response is read, however it varies. -/
theorem ofBytes_of_varies {r : Response} {j : Json} (hj : r.toJson.Varies j) :
    ofBytes j.bytes = .ok r := by
  have hwritten : Written 1 j := hj.written r.written
  have hreadable : j.isReadable (Json.maxDepth - 1 + 1) = true := hwritten.isReadable (by decide)
  rw [ofBytes, Tagged.decode, hwritten.isReadBack.decode_bytes]
  cases r with
  | pong | armed | hotkeyUnregistered | subscribed =>
    exact Tagged.read_of_varies .unit rfl rfl hj hreadable
  | status s =>
    exact Tagged.read_of_varies (.record (s.makes.map Response.status)) rfl rfl hj hreadable
  | typed actions =>
    exact Tagged.read_of_varies (.record (Record.makes_one _ _ (takes_count "actions" actions)))
      rfl rfl hj hreadable
  | disarmed wasArmed =>
    exact Tagged.read_of_varies (.record (Record.makes_one _ _ (takes_bool "was_armed" wasArmed)))
      rfl rfl hj hreadable
  | hotkeyRegistered hotkey =>
    exact Tagged.read_of_varies (.record (Record.makes_one _ _ (takes_text "hotkey" hotkey)))
      rfl rfl hj hreadable
  | cancelled wasRunning =>
    exact Tagged.read_of_varies
      (.record (Record.makes_one _ _ (takes_bool "was_running" wasRunning))) rfl rfl hj
      hreadable
  | error code message =>
    exact Tagged.read_of_varies
      (.record (Record.makes_two _ _ (by decide) (takes_text "code" code)
        (takes_text "message" message))) rfl rfl hj hreadable

end Response

/-- Every response and every notification is read from its own text, and from the text of every
value that differs from its value in no more than the order of members and in strings under unknown
names. -/
theorem messages_survive :
    (∀ r : Response, Response.ofBytes r.toJson.bytes = .ok r ∧
      ∀ j, r.toJson.Varies j → Response.ofBytes j.bytes = .ok r) ∧
    ∀ n : Notification, Notification.ofBytes n.toJson.bytes = .ok n ∧
      ∀ j, n.toJson.Varies j → Notification.ofBytes j.bytes = .ok n :=
  ⟨fun r ↦ ⟨Response.ofBytes_of_varies (.refl r.toJson), fun _ ↦ Response.ofBytes_of_varies⟩,
    fun n ↦ ⟨Notification.ofBytes_of_varies (.refl n.toJson),
      fun _ ↦ Notification.ofBytes_of_varies⟩⟩

/-- The end of a sequence, with strings that nobody asked for, and both tags behind other members. -/
theorem messages_survive_of_disorder :
    let n : Notification := ⟨.sequenceFinished 12 250⟩
    let event : Json := .record [("duration_ms", .natural 250), ("note", .text "\"\\"),
      ("type", .text "sequence_finished"), ("actions", .natural 12)]
    let j : Json := .record [("event", event), ("from", .text "here"), ("type", .text "event")]
    n.toJson.Varies j ∧ Notification.ofBytes j.bytes = .ok n := by
  intro n event j
  have hevent : n.event.toJson.Varies event :=
    @Json.Varies.record [("type", .text "sequence_finished", .text "sequence_finished"),
        ("actions", .natural 12, .natural 12), ("duration_ms", .natural 250, .natural 250)]
      [("note", "\"\\")] _ (by simp [Json.Varies.refl]) (by simp)
      (List.perm_append_comm : ([_, _] ++ [_, _]).Perm ([_, _] ++ [_, _]))
  have hj : n.toJson.Varies j :=
    @Json.Varies.record [("type", .text "event", .text "event"), ("event", n.event.toJson, event)]
      [("from", "here")] _ (by simp [Json.Varies.refl, hevent]) (by simp)
      (List.perm_append_comm : ([_, _] ++ [_]).Perm ([_] ++ [_, _]))
  exact ⟨hj, (messages_survive.2 n).2 j hj⟩

end Typist
