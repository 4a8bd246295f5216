import Typist.Proofs.Chord.RoundTrip
import Typist.Proofs.Json.Sizes
import Typist.Proofs.Wire.Origins

/-!
# Messages that fit their frames

A reader takes no frame beyond a certain size, and a writer writes frames of any. Most messages are
small, whatever the daemon has come to; only those that tell of an error can be of any size, for
they say what it is about. Whether these can be read back depends on that text alone.
-/

namespace Typist

namespace Sent

/-- The value that stands for a message. -/
def toJson : Sent → Json
  | .response r => r.toJson
  | .notification n => n.toJson

/-- A message without the length in front of it. -/
def bytes (m : Sent) : List UInt8 := m.render.toUTF8.toList

/-- Whether a message is read as it was written, whatever follows it: it stands behind its length,
and a reader takes as much. -/
structure IsReadBack (m : Sent) : Prop where
  length : ∃ a b c d, m.frame = a :: b :: c :: d :: m.bytes ∧
    Frame.lengthOf a b c d = m.bytes.length
  read : ∀ rest, Frame.next (m.frame ++ rest) = .frame m.bytes rest

/-- What a message tells of an error. -/
def errorText? : Sent → Option String
  | .response (.error _ message) => some message
  | .notification ⟨.sequenceFailed error⟩ => some error
  | _ => none

/-- The message of an error that tells nothing of it. -/
def silent : Sent → Sent
  | .response (.error code _) => .response (.error code "")
  | .notification ⟨.sequenceFailed _⟩ => .notification ⟨.sequenceFailed ""⟩
  | m => m

end Sent

/-! ## Small messages -/

namespace Json

/-- Whether a member of an object takes little. -/
structure IsSlight (m : String × Json) : Prop where
  name : m.1.length ≤ 50
  value : Text.size m.2.chars ≤ 1300

theorem isSlight_text {name s : String} (hname : name.length ≤ 50) (hs : s.length ≤ 50) :
    IsSlight (name, .text s) :=
  ⟨hname, Nat.le_trans (size_text_le hs) (by decide)⟩

theorem isSlight_natural {name : String} (hname : name.length ≤ 50) (n : UInt64) :
    IsSlight (name, .natural n.toNat) :=
  ⟨hname, Nat.le_trans (size_natural_le n) (by decide)⟩

/-- An object of at most eight members that take little. -/
theorem size_tagged_le {variant : String} {members : List (String × Json)}
    (hvariant : variant.length ≤ 50) (hmembers : ∀ m ∈ members, IsSlight m)
    (hlength : members.length ≤ 7) : Text.size (tagged variant members).chars ≤ 30000 := by
  have hall : ∀ m ∈ (tagName, text variant) :: members,
      m.1.length ≤ 50 ∧ Text.size m.2.chars ≤ 1300 := by
    rw [List.forall_mem_cons]
    have htag : IsSlight (tagName, text variant) := isSlight_text (by decide) hvariant
    exact ⟨⟨htag.name, htag.value⟩, fun m hm ↦ ⟨(hmembers m hm).name, (hmembers m hm).value⟩⟩
  have hsize := size_record_le hall
  rw [List.length_cons] at hsize
  rw [tagged]
  omega

theorem size_tagged_one_le {variant : String} {m : String × Json} (hvariant : variant.length ≤ 50)
    (hm : IsSlight m) : Text.size (tagged variant [m]).chars ≤ 30000 :=
  size_tagged_le hvariant (List.forall_mem_singleton.mpr hm) (Nat.le_add_left 1 6)

end Json

open Json in
/-- An event that the daemon tells is small, unless a sequence has failed. -/
theorem Event.IsTold.size_le {e : Event} (h : e.IsTold)
    (he : (Sent.notification ⟨e⟩).errorText? = none) : Text.size e.toJson.chars ≤ 30000 := by
  have hnone (variant : String) (hvariant : variant.length ≤ 50) :
      Text.size (tagged variant []).chars ≤ 30000 :=
    size_tagged_le hvariant (List.forall_mem_nil _) (by decide)
  cases h with
  | registered chord =>
    exact size_tagged_one_le (by decide)
      (isSlight_text (by decide) (Nat.le_trans chord.length_text_le (by decide)))
  | busy | unarmed =>
    exact size_tagged_one_le (by decide) (isSlight_text (by decide) (by decide))
  | started actions =>
    exact size_tagged_one_le (by decide) (isSlight_natural (by decide) actions)
  | finished actions durationMs =>
    refine size_tagged_le (by decide) ?_ (Nat.le_add_left 2 5)
    rw [List.forall_mem_cons, List.forall_mem_singleton]
    exact ⟨isSlight_natural (by decide) actions, isSlight_natural (by decide) durationMs⟩
  | unregistered | triggered | restarted => exact hnone _ (by decide)
  | failed => cases he

/-- The message around an event takes little beside the event. -/
theorem Notification.size_le {n : Notification} (h : Text.size n.event.toJson.chars ≤ 30000) :
    Text.size n.toJson.chars ≤ 70000 := by
  have hmembers : ∀ m ∈ [(Json.tagName, Json.text "event"), ("event", n.event.toJson)],
      m.1.length ≤ 50 ∧ Text.size m.2.chars ≤ 30000 := by
    rw [List.forall_mem_cons, List.forall_mem_singleton]
    exact ⟨⟨by decide, by decide⟩, show "event".length ≤ 50 by decide, h⟩
  have hsize := Json.size_record_le hmembers
  rw [List.length_cons, List.length_singleton] at hsize
  exact Nat.le_trans hsize (by decide)

/-- What is answered at once is a pong or an error. -/
theorem Reception.eq_of_ofFrame {frame : List UInt8} {r : Response}
    (h : Reception.ofFrame frame = .respond r) :
    r = .pong ∨ ∃ code message, r = .error code message := by
  unfold Reception.ofFrame at h
  split at h
  · next request _ =>
    cases request with
    | registerHotkey hotkey =>
      simp only [Request.reception] at h
      split at h
      · cases h
      · cases h
        exact .inr ⟨_, _, rfl⟩
    | ping =>
      cases h
      exact .inl rfl
    | _ => cases h
  · cases h
    exact .inr ⟨_, _, rfl⟩

/-! ## Long words -/

namespace Chord

end Chord

namespace Json

end Json

namespace Request

/-- The value that asks to register what is written. -/
def registering (hotkey : String) : Json :=
  .tagged "register_hotkey" [("hotkey", .text hotkey)]

theorem ofBytes_registering (hotkey : String) :
    ofBytes (registering hotkey).bytes = .ok (.registerHotkey hotkey) := by
  have hread : (registering hotkey).IsReadBack := by
    refine Json.isReadBack_record ?_
    rw [List.forall_mem_cons, List.forall_mem_singleton]
    exact ⟨Json.isReadBack_text _, Json.isReadBack_text hotkey⟩
  rw [ofBytes, Json.Tagged.decode, Json.decode, hread.read_bytes]
  rfl

end Request

/-- What answers a request to register a word that is no key. -/
def Sent.unknownKey (word : String) : Sent :=
  .response (.error "invalid_hotkey" ("unknown key '" ++ word ++ "'"))

namespace Server

variable {σ : Type} (w : Surroundings σ) (crashReason : String)

end Server

end Typist
