import Typist.Connection
import Typist.Proofs.Json.Judging
import Typist.Proofs.Json.Quoted

/-!
# What a refusal shows of a password

Requests that differ in nothing but their entry's password, and what the client is told if they are
refused. A password that is a text is never shown. One that is none is told to be so if nothing in
front of it is at fault, and the message shows it if it is a truth value or a number.
-/

namespace Typist

namespace Json

/-- The kinds of values. -/
inductive Kind
  | null | bool | number | string | array | object
  deriving DecidableEq, Repr

/-- The kind of a value, unless its text makes no sense. -/
def kind? : Json → Option Kind
  | .null => some .null
  | .bool _ => some .bool
  | .number _ => some .number
  | .string _ => some .string
  | .array _ => some .array
  | .object _ => some .object
  | .broken => none

/-- What a message shows of a value that should be a text: nothing if it is one. -/
def shown? : Json → Option String
  | .string _ => none
  | j => j.found?.map Found.text

theorem isReadable_object {depth : Nat} {ms : List (Option String × Json)} :
    (object ms).isReadable (depth + 1) = true ↔
      ∀ m ∈ ms, m.1.isSome = true ∧ m.2.isReadable depth = true := by
  simp [isReadable]

/-- What can be read and is a text passes as one; anything else is shown. -/
theorem asText_of_isReadable {j : Json} {depth : Nat} (h : j.isReadable depth = true) :
    (j.kind? = some .string ∧ j.shown? = none ∧ fault? j.asText = none) ∨
      (j.kind? ≠ some .string ∧ ∃ found, j.shown? = some found.text ∧
        j.asText = .error (.invalidType found "a string")) := by
  cases j with
  | broken => cases depth <;> cases h
  | string s =>
    cases s with
    | none => cases depth <;> cases h
    | some s => exact .inl ⟨rfl, rfl, rfl⟩
  | number n =>
    have hvalue : n.value?.isSome = true := by cases depth <;> exact h
    obtain ⟨x, hx⟩ := Option.isSome_iff_exists.mp hvalue
    refine .inr ⟨nofun, .number x, ?_, ?_⟩
    · simp [shown?, found?, hx]
    · simp [asText, asTextOf, mismatch, found?, hx]
  | null => exact .inr ⟨nofun, .null, rfl, rfl⟩
  | bool b => exact .inr ⟨nofun, .bool b, rfl, rfl⟩
  | array items => exact .inr ⟨nofun, .sequence, rfl, rfl⟩
  | object members => exact .inr ⟨nofun, .map, rfl, rfl⟩

end Json

open Json (fault? tagName)
open Json.Tagged (tags untagged)

/-! ## Refusals -/

/-- The message with which a frame is refused as no request. -/
def Reception.refusal? : Reception → Option String
  | .respond (.error code message) => if code = "invalid_request" then some message else none
  | _ => none

theorem Request.refusal?_reception (r : Request) : r.reception.refusal? = none := by
  cases r with
  | registerHotkey hotkey =>
    rw [reception]
    split <;> rfl
  | _ => rfl

/-- A frame is refused exactly if its text is at fault, and the message says how. -/
theorem Reception.refusal?_ofFrame {bytes : List UInt8} {j : Json}
    (h : Json.read bytes = ⟨j, false⟩) :
    (ofFrame bytes).refusal? =
      (fault? (Request.form.read .front (Json.maxDepth - 1) j)).map Json.Mismatch.message := by
  rw [ofFrame, Request.ofBytes, Json.Tagged.decode, Json.decode, h]
  cases hread : Request.form.read .front (Json.maxDepth - 1) j with
  | error e => rfl
  | ok r => exact r.refusal?_reception

/-! ## Entries -/

/-- An entry by name is at fault exactly if one of its members is. -/
theorem SentEntry.fault?_ofMembers (ms : List (Option String × Json)) :
    fault? (form.ofMembers ms) = fault? (form.gather [] ms) := by
  rw [Json.Record.ofMembers]
  cases h : form.gather [] ms with
  | error e => rfl
  | ok found =>
    have hget (name : String)
        (hname : name ∈ ["title", "username", "password", "url", "notes"]) :
        ∃ s, Json.Members.get ⟨found, none⟩ (textField name) = .ok s := by
      refine Json.Record.get_of_gather ?_ h (.inl ⟨"", rfl⟩)
      simp only [List.mem_cons, List.not_mem_nil, or_false] at hname
      rcases hname with rfl | rfl | rfl | rfl | rfl <;> rfl
    obtain ⟨title, htitle⟩ := hget "title" (by decide)
    obtain ⟨username, husername⟩ := hget "username" (by decide)
    obtain ⟨password, hpassword⟩ := hget "password" (by decide)
    obtain ⟨url, hurl⟩ := hget "url" (by decide)
    obtain ⟨notes, hnotes⟩ := hget "notes" (by decide)
    show fault? (form.build ⟨found, none⟩) = none
    simp only [form, htitle, husername, hpassword, hurl, hnotes]
    rfl

theorem SentEntry.find?_password :
    (form.slots.find? fun s ↦ s.name == "password") = some (textField "password").slot := rfl

/-- The records of the two requests that bring an entry: both judge it in a slot of its own, and
neither misses anything else. -/
theorem Request.exists_record {name : String} (hname : name = "auto_type" ∨ name = "arm") :
    ∃ (r : Json.Record Request) (slot : Json.Slot),
      form.variant? .front (.text name) = .ok (.record r) ∧
      (r.slots.find? fun s ↦ s.name == "entry") = some slot ∧
      (∀ ms, fault? (slot.check (.object ms)) = fault? (SentEntry.form.gather [] ms)) ∧
      ∀ ms, (∃ j, (some "entry", j) ∈ ms) →
        fault? (r.ofMembers ms) = fault? (r.gather [] ms) := by
  rcases hname with rfl | rfl
  · refine ⟨_, typedEntry.slot, rfl, rfl, fun ms ↦ ?_, fun ms h ↦ ?_⟩
    · rw [Json.Field.fault?_check, ← SentEntry.fault?_ofMembers]
      show fault? ((SentEntry.form.ofMembers ms).map some) = _
      cases SentEntry.form.ofMembers ms <;> rfl
    · exact Json.Record.fault?_ofMembers_two (by decide) (.inr h) (.inl ⟨none, rfl⟩)
  · refine ⟨_, armedEntry.slot, rfl, rfl, fun ms ↦ ?_, fun ms h ↦ ?_⟩
    · rw [Json.Field.fault?_check, ← SentEntry.fault?_ofMembers]
      rfl
    · exact Json.Record.fault?_ofMembers_two (by decide) (.inr h) (.inl ⟨none, rfl⟩)

/-- A request for an entry is at fault exactly if one of its members is, apart from the tag. -/
theorem Request.fault?_read {name : String} {r : Json.Record Request} {depth : Nat}
    {ms : List (Option String × Json)}
    (hvariant : form.variant? .front (.text name) = .ok (.record r))
    (hrecord : ∀ ms, (∃ j, (some "entry", j) ∈ ms) →
      fault? (r.ofMembers ms) = fault? (r.gather [] ms))
    (htags : tags ms = [(some tagName, .text name)])
    (hreadable : ∀ m ∈ ms, m.1.isSome = true ∧ m.2.isReadable depth = true)
    (hentry : ∃ j, (some "entry", j) ∈ ms) :
    fault? (form.read .front depth (.object ms)) = fault? (r.gather [] (untagged ms)) := by
  obtain ⟨j, hj⟩ := hentry
  have huntagged : (some "entry", j) ∈ untagged ms :=
    List.mem_filter.mpr ⟨hj, by simp [tagName]⟩
  rw [← hrecord _ ⟨j, huntagged⟩, Json.Tagged.read, Json.Tagged.split,
    Json.Tagged.gather_of_tags htags hvariant hreadable]
  rfl

/-! ## Frames that differ in the password -/

/-- What a request says besides its entry's password: the members of its object around the entry,
and those of the entry around the password. -/
structure Envelope where
  before : List (Option String × Json)
  fields : List (Option String × Json)
  more : List (Option String × Json)
  after : List (Option String × Json)

namespace Envelope

/-- The entry with a password in it. -/
def entry (s : Envelope) (password : Json) : Json :=
  .object (s.fields ++ (some "password", password) :: s.more)

/-- The request with a password in it. -/
def json (s : Envelope) (password : Json) : Json :=
  .object (s.before ++ (some "entry", s.entry password) :: s.after)

/-- Whether it asks for an entry to be typed or armed, and says so once. -/
def IsRequest (s : Envelope) : Prop :=
  ∃ name, (name = "auto_type" ∨ name = "arm") ∧
    tags (s.before ++ s.after) = [(some tagName, .text name)]

/-- The entry up to its password, which is an empty text. -/
def entryFront (s : Envelope) : Json := .object (s.fields ++ [(some "password", .text "")])

/-- The request up to its password, which is an empty text; behind the entry only the tag is left,
if it stands there. -/
def front (s : Envelope) : Json :=
  .object (s.before ++ (some "entry", s.entryFront) :: tags s.after)

/-- Whether the request is at fault in front of the password, or by naming it. -/
def IsFaulty (s : Envelope) : Prop :=
  ∃ e, Request.form.read .front (Json.maxDepth - 1) s.front = .error e

variable {s : Envelope} {v v' : Json}

/-- What can be read of a request can be read part by part. -/
theorem readable_of_json {depth : Nat} (h : (s.json v).isReadable (depth + 2) = true) :
    v.isReadable depth = true ∧
    (∀ m ∈ s.before ++ (some "entry", s.entry v) :: s.after,
      m.1.isSome = true ∧ m.2.isReadable (depth + 1) = true) ∧
    ∀ m ∈ s.before ++ (some "entry", s.entryFront) :: tags s.after,
      m.1.isSome = true ∧ m.2.isReadable (depth + 1) = true := by
  have hmembers := Json.isReadable_object.mp h
  have hfields := Json.isReadable_object.mp (hmembers (some "entry", s.entry v) (by simp)).2
  refine ⟨(hfields (some "password", v) (by simp)).2, hmembers, fun m hm ↦ ?_⟩
  rcases List.mem_append.mp hm with hm | hm
  · exact hmembers m (List.mem_append_left _ hm)
  rcases List.mem_cons.mp hm with rfl | hm
  · refine ⟨rfl, Json.isReadable_object.mpr fun m hm ↦ ?_⟩
    rcases List.mem_append.mp hm with hm | hm
    · exact hfields m (List.mem_append_left _ hm)
    · obtain rfl := List.mem_singleton.mp hm
      exact ⟨rfl, by cases depth <;> rfl⟩
  · exact hmembers m (by simp [List.mem_of_mem_filter hm])

/-- A request is judged in the slots of a record, the entry in one of its own. -/
theorem IsRequest.exists_record (hs : s.IsRequest) :
    ∃ (r : Json.Record Request) (slot : Json.Slot),
      (r.slots.find? fun s ↦ s.name == "entry") = some slot ∧
      (∀ ms, fault? (slot.check (.object ms)) = fault? (SentEntry.form.gather [] ms)) ∧
      ∀ v, (s.json v).isReadable Json.maxDepth = true →
        fault? (Request.form.read .front (Json.maxDepth - 1) (s.json v)) =
          fault? (r.gather []
            (untagged s.before ++ (some "entry", s.entry v) :: untagged s.after)) ∧
        fault? (Request.form.read .front (Json.maxDepth - 1) s.front) =
          fault? (r.gather [] (untagged s.before ++ [(some "entry", s.entryFront)])) := by
  obtain ⟨name, hname, htags⟩ := hs
  obtain ⟨r, slot, hvariant, hslot, hcheck, hrecord⟩ := Request.exists_record hname
  refine ⟨r, slot, hslot, hcheck, fun v hv ↦ ?_⟩
  obtain ⟨-, hmembers, hfront⟩ := readable_of_json hv
  have htags_json (j : Json) (after : List (Option String × Json)) (h : tags after = tags s.after) :
      tags (s.before ++ (some "entry", j) :: after) = [(some tagName, .text name)] := by
    rw [← htags, tags, List.filter_append, List.filter_cons_of_neg (by simp [tagName]),
      ← tags, ← tags, h, ← Json.Tagged.tags_append]
  have huntagged_json (j : Json) (after : List (Option String × Json)) :
      untagged (s.before ++ (some "entry", j) :: after) =
        untagged s.before ++ (some "entry", j) :: untagged after := by
    simp [untagged, tagName]
  constructor
  · rw [← huntagged_json]
    exact Request.fault?_read hvariant hrecord (htags_json _ _ rfl) hmembers
      ⟨_, List.mem_append_right _ List.mem_cons_self⟩
  · have hnone : untagged (tags s.after) = [] := by simp [untagged, tags]
    rw [← hnone, ← huntagged_json]
    exact Request.fault?_read hvariant hrecord (htags_json _ _ (by simp [tags])) hfront
      ⟨_, List.mem_append_right _ List.mem_cons_self⟩

/-- With one text for another in the password's place, the same is at fault. -/
theorem IsRequest.fault?_read_text (hs : s.IsRequest)
    (h : (s.json v).isReadable Json.maxDepth = true)
    (h' : (s.json v').isReadable Json.maxDepth = true)
    (hv : fault? v.asText = none) (hv' : fault? v'.asText = none) :
    fault? (Request.form.read .front (Json.maxDepth - 1) (s.json v)) =
      fault? (Request.form.read .front (Json.maxDepth - 1) (s.json v')) := by
  obtain ⟨r, slot, hslot, hcheck, hread⟩ := hs.exists_record
  rw [(hread v h).1, (hread v' h').1]
  refine Json.Record.fault?_gather_replace (.of_slot hslot ?_) _ _
  rw [entry, entry, hcheck, hcheck]
  refine Json.Record.fault?_gather_replace (.of_slot SentEntry.find?_password ?_) _ _
  rw [Json.Field.fault?_check, Json.Field.fault?_check]
  exact hv.trans hv'.symm

/-- With anything else there, that is at fault unless something in front of it is. -/
theorem IsRequest.fault?_read_other (hs : s.IsRequest)
    (h : (s.json v).isReadable Json.maxDepth = true) {e : Json.Mismatch}
    (hv : v.asText = .error e) :
    fault? (Request.form.read .front (Json.maxDepth - 1) (s.json v)) =
      (fault? (Request.form.read .front (Json.maxDepth - 1) s.front)).or (some e) := by
  obtain ⟨r, slot, hslot, hcheck, hread⟩ := hs.exists_record
  have hpassword : (SentEntry.textField "password").slot.check v = .error e := by
    rw [← Json.fault?_eq_some_iff, Json.Field.fault?_check]
    exact congrArg fault? hv
  have hinner := Json.Record.fault?_gather_blames SentEntry.find?_password hpassword
    (show (SentEntry.textField "password").slot.check (.text "") = .ok () from rfl) s.fields s.more
  rw [(hread v h).1, (hread v h).2]
  cases hfront : fault? (slot.check s.entryFront) with
  | none =>
    rw [entryFront, hcheck] at hfront
    rw [hfront, ← hcheck] at hinner
    exact Json.Record.fault?_gather_blames hslot (Json.fault?_eq_some_iff.mp hinner)
      (Json.eq_of_fault?_eq ((hcheck _).trans hfront)) _ _
  | some e' =>
    -- the entry is at fault in front of the password, and so is whatever it stands in
    have halike : fault? (slot.check (s.entry v)) = fault? (slot.check s.entryFront) := by
      rw [entry, entryFront, hcheck, hcheck]
      rw [entryFront, hcheck] at hfront
      rw [hinner, hfront]
      rfl
    obtain ⟨e'', hall, hfirst⟩ := Json.Record.exists_fault?_gather hslot
      (Json.fault?_eq_some_iff.mp hfront) (untagged s.before) (untagged s.after)
    rw [Json.Record.fault?_gather_replace (.of_slot hslot halike), hall, hfirst]
    rfl

end Envelope

/-- Messages about values of the wrong type differ in what they show of them. -/
theorem Json.message_invalidType_inj {found found' : Json.Found} {wanted : String} :
    (Mismatch.invalidType found wanted).message = (Mismatch.invalidType found' wanted).message ↔
      found.text = found'.text := by
  show "invalid type: " ++ found.text ++ ", expected " ++ wanted =
    "invalid type: " ++ found'.text ++ ", expected " ++ wanted ↔ _
  generalize "invalid type: " = before, ", expected " = between
  rw [← String.toList_inj, ← String.toList_inj]
  simp only [String.toList_append, List.append_assoc, List.append_cancel_left_eq,
    List.append_cancel_right_eq]

/-- Two requests that differ in nothing but their entry's password, which is of the same kind in
both, are refused alike exactly if a message would show the same of the two passwords, or something
in front of the password is at fault. -/
theorem Envelope.refusal?_eq_iff {s : Envelope} (hs : s.IsRequest) {v v' : Json}
    (hkind : v.kind? = v'.kind?) (hv : (s.json v).isReadable Json.maxDepth = true)
    (hv' : (s.json v').isReadable Json.maxDepth = true) {bytes bytes' : List UInt8}
    (hbytes : Json.read bytes = ⟨s.json v, false⟩)
    (hbytes' : Json.read bytes' = ⟨s.json v', false⟩) :
    (Reception.ofFrame bytes).refusal? = (Reception.ofFrame bytes').refusal? ↔
      v.shown? = v'.shown? ∨ s.IsFaulty := by
  obtain ⟨hreadable, -⟩ := readable_of_json hv
  obtain ⟨hreadable', -⟩ := readable_of_json hv'
  rw [Reception.refusal?_ofFrame hbytes, Reception.refusal?_ofFrame hbytes']
  rcases Json.asText_of_isReadable hreadable with
    ⟨htext, hshown, hok⟩ | ⟨hother, found, hshown, herror⟩
  · rcases Json.asText_of_isReadable hreadable' with
      ⟨-, hshown', hok'⟩ | ⟨hother', -⟩
    · rw [hs.fault?_read_text hv hv' hok hok', hshown, hshown']
      simp
    · exact absurd (hkind ▸ htext) hother'
  · rcases Json.asText_of_isReadable hreadable' with
      ⟨htext', -⟩ | ⟨-, found', hshown', herror'⟩
    · exact absurd (hkind.trans htext') hother
    · rw [hs.fault?_read_other hv herror, hs.fault?_read_other hv' herror', hshown, hshown',
        IsFaulty]
      cases hfront : Request.form.read .front (Json.maxDepth - 1) s.front with
      | error e => simp
      | ok r =>
        simp only [Json.fault?_ok, Option.none_or, Option.map_some, Option.some.injEq,
          Json.message_invalidType_inj, reduceCtorEq, exists_false, or_false]

/-- A request to arm an entry that has a title and a password. -/
def Envelope.titled (title : Json) : Envelope :=
  ⟨[(some "type", .text "arm")], [(some "title", title)], [], []⟩

/-- A number of digits. -/
def Json.pin (digits : List Nat) : Json := .number ⟨false, digits, none, none⟩

theorem Envelope.read_titled_pin {title : Json} (htitle : title.IsReadBack) (digits : List Nat)
    (hdigits : ∀ d ∈ digits, d < 10) (hne : digits ≠ []) (hzero : digits.head? ≠ some 0) :
    Json.read ((titled title).json (.pin digits)).bytes =
      ⟨(titled title).json (.pin digits), false⟩ := by
  have hentry : (Json.record [("title", title), ("password", .pin digits)]).IsReadBack :=
    Json.isReadBack_record (by simp [htitle, Json.pin, Json.isReadBack_whole hdigits hne hzero])
  have hrequest : (Json.record [("type", .text "arm"),
      ("entry", .record [("title", title), ("password", .pin digits)])]).IsReadBack :=
    Json.isReadBack_record (by simp [hentry, Json.isReadBack_text])
  exact hrequest.read_bytes

theorem Envelope.isRequest_titled (title : Json) : (titled title).IsRequest :=
  ⟨"arm", .inr rfl, rfl⟩

theorem Envelope.isFaulty_titled_null : (titled .null).IsFaulty := ⟨_, rfl⟩

/-- Two numbers are not told apart behind a title that is at fault. -/
theorem Envelope.refusal?_eq_pins :
    (Reception.ofFrame ((titled .null).json (.pin [1, 2, 3, 4])).bytes).refusal? =
      (Reception.ofFrame ((titled .null).json (.pin [5, 6, 7, 8])).bytes).refusal? := by
  have hkind : (Json.pin [1, 2, 3, 4]).kind? = (Json.pin [5, 6, 7, 8]).kind? := rfl
  have hreadable : ((titled .null).json (.pin [1, 2, 3, 4])).isReadable Json.maxDepth = true := rfl
  have hreadable' : ((titled .null).json (.pin [5, 6, 7, 8])).isReadable Json.maxDepth = true := rfl
  have hread := read_titled_pin Json.isReadBack_null [1, 2, 3, 4] (by decide) (by decide)
    (by decide)
  have hread' := read_titled_pin Json.isReadBack_null [5, 6, 7, 8] (by decide) (by decide)
    (by decide)
  exact (refusal?_eq_iff (isRequest_titled .null) hkind hreadable hreadable' hread hread').mpr
    (.inr isFaulty_titled_null)

/-- Two numbers are told apart behind a title that is a text: the messages show them. -/
theorem Envelope.refusal?_ne_pins :
    (titled (.text "")).IsRequest ∧ (Json.pin [1, 2, 3, 4]).kind? = (Json.pin [5, 6, 7, 8]).kind? ∧
    (Reception.ofFrame ((titled (.text "")).json (.pin [1, 2, 3, 4])).bytes).refusal? =
      some "invalid type: integer \x601234\x60, expected a string" ∧
    (Reception.ofFrame ((titled (.text "")).json (.pin [5, 6, 7, 8])).bytes).refusal? =
      some "invalid type: integer \x605678\x60, expected a string" := by
  refine ⟨isRequest_titled _, rfl, ?_, ?_⟩
  · rw [Reception.refusal?_ofFrame (read_titled_pin (Json.isReadBack_text "") _ (by decide)
      (by decide) (by decide))]
    rfl
  · rw [Reception.refusal?_ofFrame (read_titled_pin (Json.isReadBack_text "") _ (by decide)
      (by decide) (by decide))]
    rfl

end Typist
