import Mathlib.Data.List.Perm.Basic
import Mathlib.Data.List.Nodup
import Sluice.Worker.Webhook

/-! The webhook that a worker calls is the one that the payload was written for. -/

namespace Sluice

/-! Members of stored objects. -/

namespace JsonFields

/-- Filing a member puts it somewhere among the others. -/
theorem file_perm (name : String) (value : Json) : (fields : JsonFields) →
    (fields.file name value).members.Perm ((name, value) :: fields.members)
  | .nil => .refl _
  | .cons other found rest => by
    rw [file]
    split
    · exact .refl _
    · exact ((file_perm name value rest).cons _).trans (.swap ..)

/-- A stored object has no names that were not written. -/
theorem mem_names_stored {name : String} : (fields : JsonFields) →
    name ∈ fields.stored.members.map Prod.fst → name ∈ fields.members.map Prod.fst
  -- A member is dropped if its name comes again, and filed otherwise.
  | .nil, listed => listed
  | .cons other value rest, listed => by
    rw [stored] at listed
    split at listed
    · exact List.mem_cons_of_mem _ (mem_names_stored rest listed)
    · rw [((file_perm other value.stored rest.stored).map Prod.fst).mem_iff] at listed
      rcases List.mem_cons.mp listed with own | listed
      · exact own ▸ List.mem_cons_self
      · exact List.mem_cons_of_mem _ (mem_names_stored rest listed)

/-- Members whose names occur once are kept, in some order. -/
theorem stored_perm (relevant : String → Bool) : (fields : JsonFields) →
    ((fields.members.filter fun m => relevant m.1).map Prod.fst).Nodup →
    (fields.stored.members.filter fun m => relevant m.1).Perm
      ((fields.members.filter fun m => relevant m.1).map fun m => (m.1, m.2.stored))
  | .nil, _ => .refl _
  | .cons name value rest, distinct => by
    cases own : relevant name with
    | false =>
      simp only [members, List.filter_cons, own, Bool.false_eq_true, if_false] at distinct ⊢
      have ih := stored_perm relevant rest distinct
      rw [stored]
      split
      · exact ih
      · refine ((file_perm name value.stored rest.stored).filter _).trans ?_
        simpa only [List.filter_cons, own, Bool.false_eq_true, if_false] using ih
    | true =>
      simp only [members, List.filter_cons, own, if_true, List.map_cons, List.nodup_cons]
        at distinct ⊢
      have ih := stored_perm relevant rest distinct.2
      have once : rest.members.any (·.1 == name) = false := by
        rw [Bool.eq_false_iff]
        intro again
        obtain ⟨m, listed, same⟩ := List.any_eq_true.mp again
        obtain rfl := beq_iff_eq.mp same
        exact distinct.1 (List.mem_map_of_mem (List.mem_filter.mpr ⟨listed, own⟩))
      rw [stored, once, if_neg (by simp)]
      refine ((file_perm name value.stored rest.stored).filter _).trans ?_
      simpa only [List.filter_cons, own, if_true] using ih.cons _

end JsonFields

section Decoding

variable {α : Type} (set : α → String → Json → Option α)

/-- Decodes one member, if those before it could be decoded. -/
def decodeMember (out : Option α) (m : String × Json) : Option α := out.bind fun a => set a m.1 m.2

/-- Decoding goes through the members one after the other. -/
theorem bind_decodeMembers : (fields : JsonFields) → (out : Option α) →
    (out.bind fun old => decodeMembers set old fields) = fields.members.foldl (decodeMember set) out
  | .nil, out => by cases out <;> rfl
  | .cons name value rest, out => by
    rw [JsonFields.members, List.foldl_cons, ← bind_decodeMembers rest]
    cases out <;> rfl

/-- One member that cannot be decoded spoils the whole. -/
theorem foldl_none (members : List (String × Json)) :
    members.foldl (decodeMember set) none = none := by
  induction members with
  | nil => rfl
  | cons m members ih => exact ih

/-- Members that are not looked at make no difference. -/
theorem foldl_relevant (relevant : String → Bool)
    (ignored : ∀ a name value, relevant name = false → set a name value = some a)
    (members : List (String × Json)) (out : Option α) :
    members.foldl (decodeMember set) out =
      (members.filter fun m => relevant m.1).foldl (decodeMember set) out := by
  rw [List.foldl_filter]
  refine List.foldl_ext _ _ _ fun out m _ => ?_
  split
  · rfl
  · rename_i other
    cases out with
    | none => rfl
    | some a => exact ignored a m.1 m.2 (Bool.eq_false_iff.mpr other)

end Decoding

/-! The fields of a webhook payload. -/

/-- A name with the differences that Go ignores taken out. -/
def foldName (name : String) : List Char := name.toList.map foldChar

/-- Names that fold alike name the same fields. -/
theorem namesField_eq {name own : String} (named : foldName name = foldName own) (field : String) :
    namesField name field = (foldName own == foldName field) := by
  rw [← named]
  rfl

/-- The fields of a webhook payload. -/
def webhookFields : List String := ["url", "method", "headers", "body"]

/-- Whether a name addresses a field of a webhook payload. -/
def addresses (name : String) : Bool := webhookFields.any (namesField name)

/-- Decoding into the map of headers. -/
def decodeHeaders (old : List (String × String)) : Json → Option (List (String × String))
  | .null => some []
  | .object fields => decodeMembers setHeader old fields
  | _ => none

namespace WebhookPayload

variable {p : WebhookPayload} {name : String} {value : Json}

/-- A member for the URL sets it, and nothing else. -/
theorem setField_url (named : foldName name = foldName "url") :
    p.setField name value = (decodeString p.url value).map fun url => { p with url } := by
  simp only [setField, namesField_eq named]
  rfl

/-- So does one for the method. -/
theorem setField_method (named : foldName name = foldName "method") :
    p.setField name value = (decodeString p.method value).map fun method => { p with method } := by
  simp only [setField, namesField_eq named]
  rfl

/-- One for the headers changes those that are there. -/
theorem setField_headers (named : foldName name = foldName "headers") :
    p.setField name value =
      (decodeHeaders p.headers value).map fun headers => { p with headers } := by
  simp only [setField, namesField_eq named]
  cases value <;> rfl

/-- One for the body is taken as it is. -/
theorem setField_body (named : foldName name = foldName "body") :
    p.setField name value = (some value).map fun body => { p with body := some body } := by
  simp only [setField, namesField_eq named]
  rfl

/-- All other members are ignored. -/
theorem setField_ignored (other : addresses name = false) : p.setField name value = some p := by
  simp only [addresses, webhookFields, List.any_cons, List.any_nil, Bool.or_false,
    Bool.or_eq_false_iff] at other
  simp [setField, other]

/-- The fields that a name may address. -/
theorem addresses_cases (own : addresses name = true) :
    foldName name = foldName "url" ∨ foldName name = foldName "method" ∨
      foldName name = foldName "headers" ∨ foldName name = foldName "body" := by
  simpa [addresses, webhookFields, namesField, foldName] using own

/-- Members for different fields can be decoded in any order. -/
theorem setField_comm {name' : String} {value' : Json} (own : addresses name = true)
    (own' : addresses name' = true) (apart : foldName name ≠ foldName name')
    (out : Option WebhookPayload) :
    decodeMember setField (decodeMember setField out (name, value)) (name', value') =
      decodeMember setField (decodeMember setField out (name', value')) (name, value) := by
  cases out with
  | none => rfl
  | some p =>
    -- Of the sixteen pairs, four are for the same field, and the others touch different ones.
    simp only [decodeMember, Option.bind_some]
    rcases addresses_cases own with one | one | one | one <;>
      rcases addresses_cases own' with two | two | two | two <;>
      first
      | exact absurd (one.trans two.symm) apart
      | simp only [setField_url, setField_method, setField_headers, setField_body, one, two,
          Option.map_eq_bind, Option.bind_assoc, Function.comp_apply, Option.bind_some]
        first
        | done
        | rw [Option.bind_comm]

end WebhookPayload

/-! Values that go through a column. -/

/-- A column changes neither texts nor `null`. -/
theorem decodeString_stored (old : String) (value : Json) :
    decodeString old value.stored = decodeString old value := by
  cases value <;> rfl

/-- The text that the last member of a name stands for. -/
def lastText (name : String) : List (String × Json) → Option String
  | [] => none
  | m :: rest => (lastText name rest).or (if m.1 = name then decodeString "" m.2 else none)

/-- Whether all members are texts, or `null`. -/
def textual (members : List (String × Json)) : Prop :=
  ∀ m ∈ members, (decodeString "" m.2).isSome = true

/-- Taking a name out of a map leaves the other names their texts. -/
theorem lookup_filter_ne (headers : List (String × String)) (out name : String) :
    (headers.filter (·.1 != out)).lookup name =
      if out = name then none else headers.lookup name := by
  induction headers with
  | nil => simp
  | cons h headers ih =>
    obtain ⟨key, text⟩ := h
    by_cases gone : key = out
    · subst gone
      rw [List.filter_cons_of_neg (by simp), ih, List.lookup_cons]
      by_cases own : key = name
      · rw [if_pos own, if_pos own]
      · rw [if_neg own, if_neg own, beq_false_of_ne (Ne.symm own)]
    · rw [List.filter_cons_of_pos (by simpa using gone), List.lookup_cons, List.lookup_cons, ih]
      by_cases own : name = key
      · simp [own, Ne.symm gone]
      · rw [beq_false_of_ne own]

/-- The name has its new text then, and the others have their old ones. -/
theorem lookup_putText (texts : List (String × String)) (out text name : String) :
    (putText texts out text).lookup name = if out = name then some text else texts.lookup name := by
  rw [putText, List.lookup_append, lookup_filter_ne]
  by_cases own : out = name
  · simp [own]
  · simp [own, List.lookup_cons, beq_false_of_ne (Ne.symm own)]

/-- A member of a map comes before what was there. -/
theorem lookup_setHeader {headers headers' : List (String × String)} {m : String × Json}
    (decoded : setHeader headers m.1 m.2 = some headers') (name : String) :
    headers'.lookup name =
      (if m.1 = name then decodeString "" m.2 else none).or (headers.lookup name) := by
  obtain ⟨text, read, rfl⟩ := Option.map_eq_some_iff.mp decoded
  rw [read, lookup_putText]
  split <;> rfl

/-- A map keeps its names apart when one of them gets another text. -/
theorem nodup_putText {texts : List (String × String)} (keys : (texts.map Prod.fst).Nodup)
    (name text : String) : ((putText texts name text).map Prod.fst).Nodup := by
  rw [putText, List.map_append, List.nodup_append]
  refine ⟨keys.sublist (List.filter_sublist.map Prod.fst), List.nodup_singleton name, ?_⟩
  rintro key listed other last rfl
  -- Whatever had the name before has been filtered out.
  obtain ⟨m, member, rfl⟩ := List.mem_map.mp listed
  have apart := (List.mem_filter.mp member).2
  simp [List.mem_singleton.mp last] at apart

/-- Decoding keeps the names of a map apart. -/
theorem nodup_foldl {members : List (String × Json)} {headers headers' : List (String × String)}
    (keys : (headers.map Prod.fst).Nodup)
    (decoded : members.foldl (decodeMember setHeader) (some headers) = some headers') :
    (headers'.map Prod.fst).Nodup := by
  induction members generalizing headers with
  | nil =>
    cases decoded
    exact keys
  | cons m members ih =>
    rw [List.foldl_cons] at decoded
    cases first : decodeMember setHeader (some headers) m with
    | none =>
      rw [first, foldl_none] at decoded
      cases decoded
    | some mid =>
      rw [first] at decoded
      obtain ⟨text, -, rfl⟩ := Option.map_eq_some_iff.mp first
      exact ih (nodup_putText keys m.1 text) decoded

/-- Decoding a map of texts takes the last text of each name. -/
theorem lookup_foldl {members : List (String × Json)} {headers headers' : List (String × String)}
    (decoded : members.foldl (decodeMember setHeader) (some headers) = some headers')
    (name : String) : headers'.lookup name = (lastText name members).or (headers.lookup name) := by
  induction members generalizing headers with
  | nil =>
    cases decoded
    rfl
  | cons m members ih =>
    rw [List.foldl_cons] at decoded
    cases first : decodeMember setHeader (some headers) m with
    | none =>
      rw [first, foldl_none] at decoded
      cases decoded
    | some mid =>
      rw [first] at decoded
      rw [ih decoded, lookup_setHeader first, lastText, Option.or_assoc]

/-- A map of texts can be decoded exactly if all its members are texts. -/
theorem textual_iff {members : List (String × Json)} (headers : List (String × String)) :
    textual members ↔
      ∃ headers', members.foldl (decodeMember setHeader) (some headers) = some headers' := by
  induction members generalizing headers with
  | nil => exact ⟨fun _ => ⟨_, rfl⟩, fun _ _ listed => nomatch listed⟩
  | cons m members ih =>
    rw [textual, List.forall_mem_cons, List.foldl_cons]
    cases read : decodeString "" m.2 with
    | none =>
      have stuck : decodeMember setHeader (some headers) m = none := by
        simp [decodeMember, setHeader, read]
      simp [stuck, foldl_none]
    | some text =>
      have made : decodeMember setHeader (some headers) m = some (putText headers m.1 text) := by
        simp [decodeMember, setHeader, read]
      rw [made, ← ih]
      simp [textual]

/-- The members of an object with another name do not change the text of a name. -/
theorem lastText_of_not_mem {name : String} {members : List (String × Json)}
    (absent : name ∉ members.map Prod.fst) : lastText name members = none := by
  induction members with
  | nil => rfl
  | cons m members ih =>
    rw [List.map_cons, List.mem_cons, not_or] at absent
    rw [lastText, ih absent.2, if_neg (Ne.symm absent.1)]
    rfl

/-- Every name among texts has a last text. -/
theorem lastText_isSome {name : String} {members : List (String × Json)} (texts : textual members)
    (listed : name ∈ members.map Prod.fst) : (lastText name members).isSome = true := by
  induction members with
  | nil => cases listed
  | cons m members ih =>
    obtain ⟨first, rest⟩ := List.forall_mem_cons.mp texts
    rw [lastText, Option.isSome_or]
    rcases List.mem_cons.mp listed with own | listed
    · simp [← own, first]
    · simp [ih rest listed]

/-- A member that is filed under a new name is the only one of its name. -/
theorem lastText_file {name other : String} {value : Json} : (fields : JsonFields) →
    other ∉ fields.members.map Prod.fst →
    lastText name (fields.file other value).members =
      if other = name then decodeString "" value else lastText name fields.members
  | .nil, _ => by simp [JsonFields.file, JsonFields.members, lastText]
  | .cons third found rest, absent => by
    have tail := absent
    rw [JsonFields.members, List.map_cons, List.mem_cons, not_or] at tail
    rw [JsonFields.file]
    split
    · -- It goes in front here, and further back otherwise, which makes no difference.
      rw [JsonFields.members, lastText]
      by_cases own : other = name
      · subst own
        rw [lastText_of_not_mem absent]
        simp
      · simp [own]
    · rw [JsonFields.members, lastText, lastText_file rest tail.2, JsonFields.members, lastText]
      by_cases own : other = name
      · subst own
        simp [Ne.symm tail.1]
      · simp [own]

/-- Objects of texts keep the text of each name, which is that of its last member. -/
theorem lastText_stored (name : String) : (fields : JsonFields) → textual fields.members →
    textual fields.stored.members ∧
      lastText name fields.stored.members = lastText name fields.members
  | .nil, texts => ⟨texts, rfl⟩
  | .cons other value rest, texts => by
    obtain ⟨first, tail⟩ := List.forall_mem_cons.mp texts
    obtain ⟨kept, same⟩ := lastText_stored name rest tail
    rw [JsonFields.stored, JsonFields.members, lastText]
    split
    · rename_i again
      refine ⟨kept, same.trans ?_⟩
      obtain ⟨m, listed, named⟩ := List.any_eq_true.mp again
      obtain rfl := beq_iff_eq.mp named
      by_cases own : m.1 = name
      · -- The member is followed by another one of its name.
        have there : m.1 ∈ rest.members.map Prod.fst := List.mem_map_of_mem listed
        obtain ⟨text, last⟩ := Option.isSome_iff_exists.mp (lastText_isSome tail (own ▸ there))
        rw [last]
        rfl
      · rw [if_neg own, Option.or_none]
    · rename_i once
      have absent : other ∉ rest.members.map Prod.fst := by
        intro listed
        obtain ⟨m, member, named⟩ := List.mem_map.mp listed
        exact once (List.any_eq_true.mpr ⟨m, member, beq_iff_eq.mpr named⟩)
      constructor
      · intro m listed
        rw [(JsonFields.file_perm other value.stored rest.stored).mem_iff] at listed
        rcases List.mem_cons.mp listed with rfl | listed
        · rw [decodeString_stored]
          exact first
        · exact kept m listed
      · have absent' : other ∉ rest.stored.members.map Prod.fst :=
          fun listed => absent (JsonFields.mem_names_stored rest listed)
        rw [lastText_file rest.stored absent', same, decodeString_stored]
        by_cases own : other = name
        · subst own
          rw [lastText_of_not_mem absent, if_pos rfl, Option.none_or]
        · rw [if_neg own, if_neg own, Option.or_none]

/-- Two lists of headers that are the same map. -/
structure SameHeaders (headers headers' : List (String × String)) : Prop where
  keys : (headers.map Prod.fst).Nodup
  keys' : (headers'.map Prod.fst).Nodup
  lookup : ∀ name, headers'.lookup name = headers.lookup name

/-- Where no name occurs twice, looking a name up finds its only text. -/
theorem lookup_eq_some_iff {headers : List (String × String)} {name text : String}
    (keys : (headers.map Prod.fst).Nodup) :
    headers.lookup name = some text ↔ (name, text) ∈ headers := by
  induction headers with
  | nil => simp
  | cons h headers ih =>
    obtain ⟨key, found⟩ := h
    rw [List.map_cons, List.nodup_cons] at keys
    rw [List.lookup_cons, List.mem_cons, ← ih keys.2]
    by_cases own : name = key
    · subst own
      -- The name does not occur in the rest.
      have once : headers.lookup name ≠ some text :=
        fun again => keys.1 (List.mem_map.mpr ⟨_, (ih keys.2).mp again, rfl⟩)
      simp [once, eq_comm]
    · simp [own, beq_false_of_ne own]

/-- The same map is the same list, up to the order. -/
theorem SameHeaders.perm {headers headers' : List (String × String)}
    (same : SameHeaders headers headers') : headers'.Perm headers := by
  refine (List.perm_ext_iff_of_nodup same.keys'.of_map same.keys.of_map).mpr ?_
  rintro ⟨name, text⟩
  rw [← lookup_eq_some_iff same.keys, ← lookup_eq_some_iff same.keys', same.lookup]

/-- Headers mean the same after they have gone through a column. -/
theorem decodeHeaders_stored {headers headers' read : List (String × String)} {value : Json}
    (same : SameHeaders headers headers') (decoded : decodeHeaders headers value = some read) :
    ∃ read', decodeHeaders headers' value.stored = some read' ∧ SameHeaders read read' := by
  cases value with
  | null =>
    cases decoded
    exact ⟨[], rfl, List.nodup_nil, List.nodup_nil, fun _ => rfl⟩
  | object fields =>
    -- The map is decoded from texts alone, and each name gets its last one on both sides.
    have whole := bind_decodeMembers setHeader fields (some headers)
    rw [Option.bind_some] at whole
    have texts := (textual_iff headers).mpr ⟨read, whole.symm.trans decoded⟩
    have written := lookup_foldl (whole.symm.trans decoded)
    obtain ⟨read', back⟩ := (textual_iff headers').mp (lastText_stored "" fields texts).1
    have whole' := bind_decodeMembers setHeader fields.stored (some headers')
    rw [Option.bind_some] at whole'
    have keys := nodup_foldl same.keys (whole.symm.trans decoded)
    refine ⟨read', whole'.trans back, keys, nodup_foldl same.keys' back, fun name => ?_⟩
    rw [lookup_foldl back, (lastText_stored name fields texts).2, same.lookup name, written]
  | _ => cases decoded

/-- What a payload and the one that was read back have in common. -/
structure WebhookPayload.Resembles (p q : WebhookPayload) : Prop where
  url : q.url = p.url
  method : q.method = p.method
  headers : SameHeaders p.headers q.headers
  body : q.body = p.body.map Json.stored

namespace WebhookPayload

/-- Each member means the same after it has gone through a column. -/
theorem setField_stored {p p' q : WebhookPayload} {name : String} {value : Json}
    (own : addresses name = true) (same : p.Resembles q)
    (decoded : p.setField name value = some p') :
    ∃ q', q.setField name value.stored = some q' ∧ p'.Resembles q' := by
  rcases addresses_cases own with named | named | named | named
  · rw [setField_url named] at decoded ⊢
    obtain ⟨url, read, rfl⟩ := Option.map_eq_some_iff.mp decoded
    refine ⟨{ q with url }, ?_, rfl, same.method, same.headers, same.body⟩
    rw [decodeString_stored, same.url, read]
    rfl
  · rw [setField_method named] at decoded ⊢
    obtain ⟨method, read, rfl⟩ := Option.map_eq_some_iff.mp decoded
    refine ⟨{ q with method }, ?_, same.url, rfl, same.headers, same.body⟩
    rw [decodeString_stored, same.method, read]
    rfl
  · rw [setField_headers named] at decoded ⊢
    obtain ⟨headers, read, rfl⟩ := Option.map_eq_some_iff.mp decoded
    obtain ⟨headers', back, equal⟩ := decodeHeaders_stored same.headers read
    refine ⟨{ q with headers := headers' }, ?_, same.url, same.method, equal, same.body⟩
    rw [back]
    rfl
  · rw [setField_body named] at decoded ⊢
    cases decoded
    exact ⟨_, rfl, same.url, same.method, same.headers, rfl⟩

/-- So do all members together, as long as they come in the same order. -/
theorem foldl_stored {members : List (String × Json)}
    (own : ∀ m ∈ members, addresses m.1 = true) {p p' q : WebhookPayload} (same : p.Resembles q)
    (decoded : members.foldl (decodeMember setField) (some p) = some p') :
    ∃ q', (members.map fun m => (m.1, m.2.stored)).foldl (decodeMember setField) (some q) =
      some q' ∧ p'.Resembles q' := by
  induction members generalizing p q with
  | nil =>
    cases decoded
    exact ⟨q, rfl, same⟩
  | cons m members ih =>
    obtain ⟨first, rest⟩ := List.forall_mem_cons.mp own
    rw [List.foldl_cons] at decoded
    cases one : decodeMember setField (some p) m with
    | none =>
      rw [one, foldl_none] at decoded
      cases decoded
    | some mid =>
      rw [one] at decoded
      obtain ⟨mid', back, equal⟩ := setField_stored first same one
      rw [List.map_cons, List.foldl_cons]
      have step : decodeMember setField (some q) (m.1, m.2.stored) = some mid' := back
      rw [step]
      exact ih rest equal decoded

end WebhookPayload

/-- The header that is added to a request applies in the same cases. -/
theorem any_eq_lookup (headers : List (String × String)) (name : String) :
    headers.any (·.1 == name) = (headers.lookup name).isSome := by
  induction headers with
  | nil => rfl
  | cons h headers ih =>
    obtain ⟨key, text⟩ := h
    rw [List.any_cons, ih, List.lookup_cons, Bool.beq_comm]
    cases name == key <;> rfl

/-! The request that is made of a payload. -/

/-- No two headers are the same once their names are in canonical form. -/
def WebhookPayload.canonical (p : WebhookPayload) : Prop :=
  (p.headers.map fun h => canonicalHeaderKey h.1).Nodup

instance (p : WebhookPayload) : Decidable p.canonical :=
  inferInstanceAs (Decidable (List.Nodup _))

/-- Headers whose canonical names differ are set one beside the other. -/
theorem foldl_headerSet {headers set : List (String × String)}
    (apart : (set.map Prod.fst ++ headers.map fun h => canonicalHeaderKey h.1).Nodup) :
    headers.foldl headerSet set = set ++ headers.map fun h => (canonicalHeaderKey h.1, h.2) := by
  induction headers generalizing set with
  | nil => simp
  | cons h headers ih =>
    have fresh : ∀ m ∈ set, (m.1 != canonicalHeaderKey h.1) = true := by
      intro m listed
      have apart := List.disjoint_of_nodup_append apart (List.mem_map_of_mem listed)
      exact bne_iff_ne.mpr fun same => apart (by simp [same])
    -- Nothing is replaced, so the header comes last.
    have added : headerSet set h = set ++ [(canonicalHeaderKey h.1, h.2)] := by
      rw [headerSet, putText, List.filter_eq_self.mpr fresh]
    rw [List.foldl_cons, added, ih (by simpa using apart)]
    simp

/-- The order of `range` makes no difference then, nor does the order of the map. -/
theorem perm_headerSet {headers headers' : List (String × String)} (same : headers'.Perm headers)
    (apart : (headers.map fun h => canonicalHeaderKey h.1).Nodup) (web : Web) :
    ((web.order headers').foldl headerSet []).Perm ((web.order headers).foldl headerSet []) := by
  have ordered : ∀ other, other.Perm headers →
      ((web.order other).foldl headerSet []).Perm
        (headers.map fun h => (canonicalHeaderKey h.1, h.2)) := by
    intro other equal
    have whole := (web.complete other).trans equal
    rw [foldl_headerSet (by simpa using (whole.map _).nodup_iff.mpr apart), List.nil_append]
    exact whole.map _
  exact (ordered headers' same).trans (ordered headers (.refl _)).symm

/-- A request that says what another one was written to say. -/
structure WebhookRequest.Carries (written sent : WebhookRequest) : Prop where
  method : sent.method = written.method
  url : sent.url = written.url
  headers : sent.headers.Perm written.headers
  -- A column has another form for the same value.
  body : sent.body = written.body.map Json.stored

/-- Payloads that mean the same lead to the same request, whatever the order of `range`. -/
theorem WebhookPayload.Resembles.request {p q : WebhookPayload} (same : p.Resembles q)
    (canonical : p.canonical) (web : Web) : (p.request web).Carries (q.request web) where
  method := by simp only [WebhookPayload.request, same.method]
  url := same.url
  headers := by
    have typed : (!q.headers.any (·.1 == "Content-Type") && q.body.isSome) =
        (!p.headers.any (·.1 == "Content-Type") && p.body.isSome) := by
      rw [any_eq_lookup, any_eq_lookup, same.headers.lookup, same.body, Option.isSome_map]
    have set := perm_headerSet same.headers.perm canonical web
    simp only [WebhookPayload.request, typed]
    split
    · exact (set.filter _).append_right _
    · exact set
  body := same.body

/-- No field of a webhook payload is named twice. -/
def JsonFields.plain (fields : JsonFields) : Bool :=
  webhookFields.all fun field => decide (fields.members.countP (namesField ·.1 field) ≤ 1)

/-- In a plain payload the names that matter are all different, even if case is ignored. -/
theorem JsonFields.plain_distinct {fields : JsonFields} (plain : fields.plain = true) :
    ((fields.members.filter fun m => addresses m.1).map fun m => foldName m.1).Nodup := by
  rw [List.nodup_iff_count_le_one]
  intro key
  by_cases listed : key ∈ (fields.members.filter fun m => addresses m.1).map fun m => foldName m.1
  · obtain ⟨m, relevant, rfl⟩ := List.mem_map.mp listed
    obtain ⟨field, known, named⟩ := List.any_eq_true.mp (List.mem_filter.mp relevant).2
    have once := of_decide_eq_true (List.all_eq_true.mp plain field known)
    rw [List.count, List.countP_map, List.countP_filter]
    refine (List.countP_mono_left fun other _ same => ?_).trans once
    -- A name that folds like this one names the same field.
    simp only [Function.comp_apply, Bool.and_eq_true, beq_iff_eq] at same
    rw [namesField_eq same.1]
    exact named
  · rw [List.count_eq_zero.mpr listed]
    exact Nat.zero_le 1

/-- A plain payload is read back from a column as it was written. -/
theorem WebhookPayload.unmarshal_stored {fields : JsonFields} (plain : fields.plain = true)
    {p : WebhookPayload} (written : unmarshal (.object fields) = some p) :
    ∃ q, unmarshal (Json.object fields).stored = some q ∧ p.Resembles q := by
  -- Only the members that address a field matter.
  have decoded : ∀ fields, unmarshal (.object fields) = (fields.members.filter fun m =>
      addresses m.1).foldl (decodeMember setField) (some .zero) := by
    intro fields
    rw [← foldl_relevant setField addresses fun p _ _ => setField_ignored, ← bind_decodeMembers]
    rfl
  have distinct := JsonFields.plain_distinct plain
  rw [decoded] at written
  have unset : zero.Resembles zero :=
    ⟨rfl, rfl, ⟨List.nodup_nil, List.nodup_nil, fun _ => rfl⟩, rfl⟩
  obtain ⟨q, back, same⟩ :=
    foldl_stored (fun m listed => (List.mem_filter.mp listed).2) unset written
  refine ⟨q, ?_, same⟩
  rw [Json.stored, decoded, ← back]
  -- The column may have changed the order of the members, which are all for different fields.
  have arranged := JsonFields.stored_perm addresses fields
    (List.Nodup.of_map foldName (by rwa [List.map_map]))
  refine arranged.foldl_eq' (fun x listed y listed' out => ?_) _
  obtain ⟨m, here, rfl⟩ := List.mem_map.mp (arranged.mem_iff.mp listed)
  obtain ⟨m', here', rfl⟩ := List.mem_map.mp (arranged.mem_iff.mp listed')
  by_cases one : foldName m.1 = foldName m'.1
  · rw [List.inj_on_of_nodup_map distinct here here' one]
  · exact setField_comm (List.mem_filter.mp here).2 (List.mem_filter.mp here').2 one out

end Sluice
