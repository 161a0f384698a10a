import Mathlib.Data.List.Nodup
import BrokerTopology.Broker.Message
import BrokerTopology.Proofs.Json.Tagged
/-!
# Requests in any order

A request is an object, and an object may be written in many ways. In whichever order the members of a
request stand, wherever its type stands among them, whatever members are mixed with them that it does not
know, and however all this is spelled, the request is read. If its type or one of its fields stands
twice it is not, whatever the values are.

No character is meant by an escaped surrogate without a partner. It is refused even where nobody asks for
the text it stands in.

Main statement: `read_members`.
-/

namespace BrokerTopology

open Json (Value IsDocument)

namespace Request

variable {r : Request} {known others ms : List (String × Value)} {text : String}

/-! ## The members of a request -/

/-- The word that tags a request. -/
def tag : Request → String
  | subscribe _ => "subscribe"
  | unsubscribe _ => "unsubscribe"
  | publish _ _ _ => "publish"
  | probeAck => "probe_ack"

/-- The names of the fields of a request. -/
def fieldNames (r : Request) : List String :=
  (variantFields r.tag).map Json.VariantField.name

/-- The members that a request is written with. A flag of retention that is not set may be left out. -/
inductive Members : Request → List (String × Value) → Prop
  | all {r : Request} {ms : List (String × Value)} (h : r.toValue = .object ms) : Members r ms
  | unretained (topic payload : String) :
      Members (publish topic payload false)
        [("type", .text "publish"), ("topic", .text topic), ("payload", .text payload)]

theorem tag_mem_variants (r : Request) : r.tag ∈ variants := by
  cases r with
  | _ => simp [tag, variants]

/-- The type of a request is none of its fields. -/
theorem type_not_mem_fieldNames (r : Request) : "type" ∉ r.fieldNames := by
  cases r with
  | _ => simp [fieldNames, variantFields, tag]

/-- Among the members of a request stands its tag. -/
theorem Members.tag_mem (h : r.Members known) : ("type", .text r.tag) ∈ known := by
  cases h with
  | unretained topic payload => exact List.mem_cons_self
  | all h =>
    cases r with
    | _ =>
      cases h
      exact List.mem_cons_self

/-- No member of a request stands twice. -/
theorem Members.names_nodup (h : r.Members known) : (known.map Prod.fst).Nodup := by
  cases h with
  | unretained topic payload => simp
  | all h =>
    cases r with
    | _ =>
      cases h
      simp

/-- The other members of a request are its fields. -/
theorem Members.ofTagged (h : r.Members known) :
    ofTagged ⟨r.tag, .object (known.filter fun m => m.1 ≠ "type")⟩ = .ok r := by
  cases h with
  | unretained topic payload => rfl
  | all h =>
    cases r with
    | _ =>
      cases h
      rfl

/-! ## Requests as lists of members -/

/-- The request that some members are. -/
def ofMembers (ms : List (String × Value)) : Except Json.Error Request :=
  Json.taggedOf "type" variants ms >>= ofTagged

/-- A request is read from each document of the object with its members. -/
theorem read_of_isDocument (h : IsDocument False (.object ms) text) :
    Request.read text = ofMembers ms := by
  obtain ⟨b, t, b', hb, hb', hdenotes, htext⟩ := h
  rw [← List.append_assoc] at htext
  refine Json.document_of_blanks hb' htext ?_
  rw [List.append_assoc, reader, Json.asTagged_object hdenotes hb, ofMembers, bind_assoc, bind_assoc]
  rfl

/-- A name that is counted once has one value. -/
theorem value_eq_of_count_eq_one {name : String} {v w : Value} (honce : (ms.map Prod.fst).count name = 1)
    (hv : (name, v) ∈ ms) (hw : (name, w) ∈ ms) : v = w := by
  rw [← Json.length_filter_name, List.length_eq_one_iff] at honce
  obtain ⟨m, hm⟩ := honce
  have hsame : ∀ {u}, (name, u) ∈ ms → (name, u) = m := by
    intro u hu
    rw [← List.mem_singleton, ← hm, List.mem_filter]
    exact ⟨hu, beq_self_eq_true name⟩
  exact (Prod.mk.inj ((hsame hv).trans (hsame hw).symm)).2

/-- The order of the members does not matter, nor do members that are not known. -/
theorem ofMembers_of_perm (hknown : r.Members known) (hperm : ms.Perm (known ++ others))
    (hothers : ∀ m ∈ others, m.1 ≠ "type" ∧ m.1 ∉ r.fieldNames) : ofMembers ms = .ok r := by
  have htag : ("type", .text r.tag) ∈ ms :=
    hperm.mem_iff.mpr (List.mem_append_left others hknown.tag_mem)
  have honce : (ms.map Prod.fst).count "type" = 1 := by
    rw [(hperm.map Prod.fst).count_eq, List.map_append, List.count_append,
      Json.count_names_eq_zero fun m hm => (hothers m hm).1]
    exact List.count_eq_one_of_mem hknown.names_nodup (List.mem_map_of_mem hknown.tag_mem)
  rw [ofMembers, Json.taggedOf_of_once r.tag_mem_variants htag honce, ← hknown.ofTagged]
  show ofTagged _ = _
  -- each field finds the same member as if only the known members stood there
  have hfields : Json.variantFields (variantFields r.tag) (.object (ms.filter fun m => m.1 ≠ "type")) =
      Json.variantFields (variantFields r.tag) (.object (known.filter fun m => m.1 ≠ "type")) := by
    have hsplit := hperm.filter fun m => m.1 ≠ "type"
    rw [List.filter_append] at hsplit
    refine Json.variantFields_congr fun f hf => Json.filter_name_of_perm hsplit ?_ fun m hm hname => ?_
    · exact List.nodup_iff_count_le_one.mp
        (hknown.names_nodup.sublist (List.filter_sublist.map Prod.fst)) f.name
    · refine (hothers m (List.mem_of_mem_filter hm)).2 ?_
      rw [hname]
      exact List.mem_map_of_mem hf
  rw [ofTagged, ofTagged, hfields]

/-- If the type or a field of a request is repeated it fails to match. -/
theorem ofMembers_of_repeated
    (h : 2 ≤ (ms.map Prod.fst).count "type" ∨
      ("type", .text r.tag) ∈ ms ∧ ∃ name ∈ r.fieldNames, 2 ≤ (ms.map Prod.fst).count name) :
    ∃ e, ofMembers ms = .error e ∧ e.kind = .mismatched := by
  rcases Json.taggedOf_cases "type" variants ms with ⟨t, -, hmem, honce, htagged⟩ | ⟨e, he, hkind⟩
  · rcases h with htwice | ⟨htag, name, hname, htwice⟩
    · omega
    · obtain rfl : t = r.tag := Value.text.inj (value_eq_of_count_eq_one honce hmem htag)
      obtain ⟨f, hf, rfl⟩ := List.mem_map.mp hname
      have hother : f.name ≠ "type" := fun hsame => r.type_not_mem_fieldNames (hsame ▸ hname)
      have hnames : (ms.filter fun m => m.1 ≠ "type").map Prod.fst =
          (ms.map Prod.fst).filter fun name => name ≠ "type" := by
        rw [List.filter_map]
        rfl
      have hrepeated : 2 ≤ ((ms.filter fun m => m.1 ≠ "type").map Prod.fst).count f.name := by
        rw [hnames, List.count_filter]
        · exact htwice
        · exact decide_eq_true hother
      obtain ⟨e, he, hkind⟩ := Json.variantFields_of_repeated hf hrepeated
      refine ⟨e, ?_, hkind⟩
      rw [ofMembers, htagged]
      show ofTagged _ = _
      rw [ofTagged, he]
      rfl
  · exact ⟨e, by rw [ofMembers, he]; rfl, hkind⟩

/-! ## Every document -/

/-- A document is read as a request if it holds the members of the request, in any order and with any
others whose names are neither `type` nor fields of the request. It fails to match if `type` is repeated,
or if it has the type of a request of which a field is repeated. -/
theorem read_members (r : Request) (htext : IsDocument False (.object ms) text) :
    (∀ known others, r.Members known → ms.Perm (known ++ others) →
      (∀ m ∈ others, m.1 ≠ "type" ∧ m.1 ∉ r.fieldNames) → Request.read text = .ok r) ∧
    (2 ≤ (ms.map Prod.fst).count "type" ∨
        ("type", .text r.tag) ∈ ms ∧ (∃ name ∈ r.fieldNames, 2 ≤ (ms.map Prod.fst).count name) →
      ∃ e, Request.read text = .error e ∧ e.kind = .mismatched) := by
  rw [read_of_isDocument htext]
  exact ⟨fun _ _ => ofMembers_of_perm, ofMembers_of_repeated⟩

/-- The members of a publication out of order, and an array that it does not know. -/
def scattered : List (String × Value) :=
  [("payload", .text "p"), ("x", .array [.int 1, .object []]), ("type", .text "publish"),
    ("topic", .text "a/b")]

theorem readable_of_mem_scattered : ∀ m ∈ scattered, m.2.Readable (Json.maxDepth - 1) := by
  have hone : (Value.int 1).Readable 125 := .number (Json.readsBack_int (by decide) (by decide))
  have hnone : (Value.object []).Readable 125 := .object (List.forall_mem_nil _)
  have harray : (Value.array [.int 1, .object []]).Readable 126 :=
    .array (List.forall_mem_cons.mpr ⟨hone, List.forall_mem_singleton.mpr hnone⟩)
  simp only [scattered, List.forall_mem_cons]
  exact ⟨.text "p", harray, .text "publish", .text "a/b", List.forall_mem_nil _⟩

/-- The publication is read, without its flag of retention, from the document that is written of these
members. With another payload it is not, whatever that is. -/
theorem read_members_scattered :
    Request.read (Value.object scattered).write = .ok (publish "a/b" "p" false) ∧
      ∃ e, Request.read (Value.object (("payload", .null) :: scattered)).write = .error e ∧
        e.kind = .mismatched := by
  have hread := readable_of_mem_scattered
  have hmore : ∀ m ∈ ("payload", Value.null) :: scattered, m.2.Readable (Json.maxDepth - 1) :=
    List.forall_mem_cons.mpr ⟨.null, hread⟩
  obtain ⟨hknown, -⟩ := read_members (publish "a/b" "p" false) (Value.Readable.object hread).isDocument
  obtain ⟨-, hrepeated⟩ := read_members (publish "a/b" "p" false) (Value.Readable.object hmore).isDocument
  refine ⟨hknown _ [("x", .array [.int 1, .object []])] (.unretained "a/b" "p") ?_ ?_,
    hrepeated (.inr ⟨?_, "payload", ?_, ?_⟩)⟩
  · exact @List.perm_append_comm _ [_, _] [_, _]
  · simp [fieldNames, variantFields, tag]
  · simp [scattered, tag]
  · simp [fieldNames, variantFields, tag]
  · simp [scattered]

/-- An escaped surrogate without a partner, in a member that is not known. -/
def forlorn : String :=
  "\x7b\"type\":\"probe_ack\",\"x\":\"\\ud800\"\x7d"

theorem isDocument_forlorn :
    IsDocument True (.object [("type", .text "probe_ack"), ("x", .text "\uFFFD")]) forlorn := by
  let ps : List ((String × Value) × List Char) :=
    [(("type", .text "probe_ack"), Json.quote "probe_ack"),
      (("x", .text "\uFFFD"), ['"', '\\', 'u', 'd', '8', '0', '0', '"'])]
  have hvalues : ∀ p ∈ ps, Json.Denotes True 126 p.1.2 p.2 := by
    have htype : Json.Denotes True 126 (.text "probe_ack") (Json.quote "probe_ack") :=
      .text (Json.spells_escape True _)
    have hlone : Json.Denotes True 126 (.text "\uFFFD")
        ('"' :: (['\\', 'u', 'd', '8', '0', '0'] ++ ['"'])) :=
      .text (.surrogate trivial (n := 0xD800) (by decide) (by decide) .nil)
    simp only [ps, List.forall_mem_cons]
    exact ⟨htype, hlone, List.forall_mem_nil _⟩
  have hspread := Json.spread_intercalate _ ps fun p _ => Json.isMember_memberText True p
  exact ⟨[], _, [], List.forall_mem_nil _, List.forall_mem_nil _, .object hvalues hspread, by decide⟩

/-- It is refused, although the grammar of JSON allows it. -/
theorem not_read_members_forlorn :
    ¬ ∀ (r : Request) (known others ms : List (String × Value)) (text : String),
      IsDocument True (.object ms) text → r.Members known → ms.Perm (known ++ others) →
      (∀ m ∈ others, m.1 ≠ "type" ∧ m.1 ∉ r.fieldNames) → Request.read text = .ok r := by
  intro h
  have hread := h .probeAck [("type", .text "probe_ack")] [("x", .text "\uFFFD")] _ forlorn
    isDocument_forlorn (.all rfl) (.refl _) (by simp [fieldNames, variantFields, tag])
  have hrefused : (Request.read forlorn).isOk = false := by decide +kernel
  rw [hread] at hrefused
  cases hrefused

end Request

end BrokerTopology
