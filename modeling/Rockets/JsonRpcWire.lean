import Rockets.JsonRpcRoundTrip

set_option autoImplicit false

/-!
# Calls on the wire

What a requester and a receiver exchange are bytes. With the embedded library a text may be
replaced by the bytes that are written for it, so that a call goes from bytes to bytes.
-/
namespace Rockets.JsonRpc
open Grammar

section Rendering
variable {α : Type} {grisu2 : ℕ → Bytes × ℤ} {strtod : Strtod} {sameKey : Json → Json → Bool}
  {refl : ∀ j, sameKey j j = true} {t : Text} {bytes : Bytes}

theorem exists_render (h : t.Readable grisu2 strtod) : ∃ bytes, t.render grisu2 = .ok bytes := by
  have hparse : ∃ bytes, t.render grisu2 = .ok bytes ∧
      (JsonLib.embedded strtod (fun _ _ => true) fun _ => rfl).parse t = parsed strtod bytes :=
    JsonLib.embedded_parse h
  obtain ⟨bytes, hbytes, -⟩ := hparse
  exact ⟨bytes, hbytes⟩

theorem parse_render (h : t.Readable grisu2 strtod) (hbytes : t.render grisu2 = .ok bytes) :
    (JsonLib.embedded strtod sameKey refl).parse t =
      (JsonLib.embedded strtod sameKey refl).parse (.bytes bytes) := by
  have hparse : ∃ b, t.render grisu2 = .ok b ∧
      (JsonLib.embedded strtod sameKey refl).parse t = parsed strtod b := JsonLib.embedded_parse h
  obtain ⟨b, hb, hparse⟩ := hparse
  obtain rfl := Except.ok.inj (hb.symm.trans hbytes)
  exact hparse

theorem process_render (h : t.Readable grisu2 strtod) (hbytes : t.render grisu2 = .ok bytes)
    (recv : Receiver α) (clientID : ℕ) :
    RequestProcessor.process (JsonLib.embedded strtod sameKey refl) recv { message := t, clientID } =
      RequestProcessor.process (JsonLib.embedded strtod sameKey refl) recv
        { message := .bytes bytes, clientID } := by
  simp only [RequestProcessor.process, RequestProcessor.processDocument, JsonLib.parseOrThrow,
    parse_render h hbytes]

theorem accept_render (h : t.Readable grisu2 strtod) (hbytes : t.render grisu2 = .ok bytes)
    (impl : Requester.Impl) : impl.accept (JsonLib.embedded strtod sameKey refl) t =
      impl.accept (JsonLib.embedded strtod sameKey refl) (.bytes bytes) := by
  simp only [Requester.Impl.accept, JsonLib.parseOrDiscard, parse_render h hbytes]

end Rendering

section Contents
variable {lib : JsonLib} {float : ℕ → Prop} {rep : Response} {id : ℕ} {ps : Option Json} {j : Json}

theorem storable_makeRequest (method : Bytes) (hid : id < Requester.sizeCount)
    (hps : ∀ p ∈ ps, p.Storable float) :
    (Requester.makeRequest method id ps).Storable float := by
  refine storable_ofMembers ?_
  cases ps with
  | none => exact ⟨trivial, trivial, hid, trivial⟩
  | some p => exact ⟨trivial, trivial, hid, hps p rfl, trivial⟩

/-- The values that a response is encoded by can be written and read again. -/
structure Response.Storable (lib : JsonLib) (float : ℕ → Prop) (rep : Response) : Prop where
  result : rep.isError = false → ∀ j hj, lib.parse rep.result = .value j hj → j.Storable float
  data : rep.isError = true → rep.error.data.isEmpty = false →
    ∀ j hj, lib.parse rep.error.data = .value j hj → j.Storable float

theorem storable_makeErrorResponseJson {error : Json} (herror : error.Storable float)
    (hid : id < Requester.sizeCount) :
    (makeErrorResponseJson error (.numberUnsigned id)).Storable float :=
  storable_ofMembers ⟨trivial, herror, hid, trivial⟩

theorem storable_code {n : ℤ} (h : IsInt n) : (Json.numberInteger n).Storable float := by
  obtain ⟨hlo, hhi⟩ := h
  exact ⟨by omega, by omega⟩

theorem storable_makeResponse (h : rep.Storable lib float) (hid : id < Requester.sizeCount)
    (hint : IsInt rep.error.code) (hj : makeResponse lib rep (.numberUnsigned id) = .ok j) :
    j.Storable float := by
  unfold makeResponse at hj
  split_ifs at hj with herror
  · have hcode : (Json.numberInteger rep.error.code).Storable float := storable_code hint
    unfold makeErrorResponse JsonLib.parseOrThrow at hj
    simp only at hj
    split_ifs at hj with hempty
    · obtain rfl := Except.ok.inj hj
      exact storable_makeErrorResponseJson (storable_ofMembers ⟨hcode, trivial, trivial⟩) hid
    · have hdata := h.data herror (by simpa using hempty)
      cases hparse : lib.parse rep.error.data with
      | value data hu =>
        rw [hparse] at hj
        obtain rfl := Except.ok.inj hj
        exact storable_makeErrorResponseJson
          (storable_ofMembers ⟨hcode, trivial, hdata data hu hparse, trivial⟩) hid
      | parseError what =>
        rw [hparse] at hj
        cases hj
      | outOfRange =>
        rw [hparse] at hj
        cases hj
  · have hresult := h.result (by simpa using herror)
    unfold makeResponseText JsonLib.parseOrThrow at hj
    cases hparse : lib.parse rep.result with
    | value result hu =>
      rw [hparse] at hj
      obtain rfl := Except.ok.inj hj
      exact storable_ofMembers ⟨trivial, hresult result hu hparse, hid, trivial⟩
    | parseError what =>
      rw [hparse] at hj
      obtain rfl := Except.ok.inj hj
      have hcode : (Json.numberInteger internalError.code).Storable float :=
        storable_code (by decide)
      exact storable_makeErrorResponseJson
        (storable_ofMembers ⟨hcode, trivial, trivial, trivial⟩) hid
    | outOfRange =>
      rw [hparse] at hj
      cases hj

end Contents

section Wire
variable {α : Type} {grisu2 : ℕ → Bytes × ℤ} {strtod : Strtod} {sameKey : Json → Json → Bool}
  {refl : ∀ j, sameKey j j = true} {recv : Receiver α} {method : Bytes} {params : Text}
  {ps : Option Json}

/-- A call goes through bytes both ways: those of the request reach the action with the same
parameters, and those of its reply are the same response for the callback. -/
theorem round_trip_on_wire (w : World α (List Text)) (s : Requester.State)
    (hmethod : utf8 method = true) (hbinds : recv.binds method = true)
    (hid : s.impl.lastId < Requester.sizeCount)
    (hparams : Requester.parseParams (JsonLib.embedded strtod sameKey refl) params = .ok ps)
    (hps : ∀ p ∈ ps, p.isObject = true ∨ p.isArray = true)
    (hpreserved : ∀ p ∈ ps, p.Storable (Preserves grisu2 strtod)) (clientID : ℕ) :
    ∃ request bytes params' deed,
      (s.request (JsonLib.embedded strtod sameKey refl) method params).wire =
        s.wire ++ [(s.calls.length, request)] ∧
      Serializer.dumpText grisu2 4 false request = .ok bytes ∧
      SameText (JsonLib.embedded strtod sameKey refl) params params' ∧
      recv.deed (JsonLib.embedded strtod sameKey refl) (.numberUnsigned s.impl.lastId) method
        { message := params', clientID } w.app = some deed ∧
      (deed.given.response.Encoded (JsonLib.embedded strtod sameKey refl) →
        deed.given.response.Storable (JsonLib.embedded strtod sameKey refl) (Preserves grisu2 strtod) →
        IsInt deed.given.response.error.code → ∃ j hj reply,
          Serializer.dumpText grisu2 4 false j = .ok reply ∧
          Concludes (RequestProcessor.process (JsonLib.embedded strtod sameKey refl) recv
              { message := .bytes bytes, clientID })
            deed.given.isLater w (.ok (deed.world w (w.out ++ [.dumped j hj]))) ∧
          ∀ (u : Requester.State) call, u.pending s.impl.lastId = some call → ∃ rep',
            u.impl.accept (JsonLib.embedded strtod sameKey refl) (.bytes reply) =
              .ok (some { id := s.impl.lastId, call, response := rep' }) ∧
            SameResponse (JsonLib.embedded strtod sameKey refl) deed.given.response rep') := by
  have hu := (Requester.utf8_makeRequest hparams s.impl.lastId).trans hmethod
  have hsends := request_sends (s := s) hmethod hparams
  obtain ⟨params', hsame, hcall⟩ := asCall_of_request s.impl.lastId hbinds hparams hps
  obtain ⟨deed, hdeed⟩ := Option.isSome_iff_exists.mp (deed_isSome
    (JsonLib.embedded strtod sameKey refl) (Receiver.ne_cancel_of_binds hbinds)
    (isRegisteredMethodName_of_binds hbinds) (.numberUnsigned s.impl.lastId)
    { message := params', clientID } w.app)
  have hreadable : (Text.dumped _ hu).Readable grisu2 strtod :=
    storable_makeRequest method hid hpreserved
  obtain ⟨bytes, hbytes⟩ := exists_render hreadable
  refine ⟨_, bytes, params', deed, by rw [hsends]; rfl, hbytes, hsame, hdeed, ?_⟩
  intro hencoded hstorable hint
  obtain ⟨j, rep', hj, hju, hread, hresponse⟩ := makeResponse_readAs hencoded hint s.impl.lastId
  have hreply : (Text.dumped j hju).Readable grisu2 strtod :=
    storable_makeResponse hstorable hid hint hj
  obtain ⟨reply, hdump⟩ := exists_render hreply
  refine ⟨j, hju, reply, hdump, ?_, fun u call hpending => ⟨rep', ?_, hresponse⟩⟩
  · rw [← process_render hreadable hbytes]
    exact process_of_deed hbinds hu hcall hdeed hju hj
  · rw [← accept_render hreply hdump]
    exact hread.accept hpending

/-- A library for texts with no float but 1.5. -/
abbrev floatLibrary : JsonLib := embeddedWith fun _ => 0x3FF8000000000000

theorem preserves_oneAndHalf :
    Preserves oneAndHalf (fun _ => 0x3FF8000000000000) 0x3FF8000000000000 where
  finite := by decide
  readsBack := readsBack_oneAndHalf

theorem parseParams_oneAndHalf : Requester.parseParams floatLibrary (.bytes (ascii "[1.5]")) =
    .ok (some (.array [.numberFloat 0x3FF8000000000000])) := by
  have hparse : floatLibrary.parse (.bytes (ascii "[1.5]")) =
      .value (.array [.numberFloat 0x3FF8000000000000]) rfl := parsed_ok parse_oneAndHalf rfl
  have hempty : (Text.bytes (ascii "[1.5]")).isEmpty = false := rfl
  simp only [Requester.parseParams, hempty, JsonLib.parseOrThrow, hparse]
  rfl

theorem round_trip_on_wire_ping : ∃ request bytes j hj reply,
    (Requester.State.request floatLibrary {} (ascii "ping") (.bytes (ascii "[1.5]"))).wire =
      [(0, request)] ∧
    Serializer.dumpText oneAndHalf 4 false request = .ok bytes ∧
    (RequestProcessor.process floatLibrary (pingReceiver okResponse)
      { message := .bytes bytes, clientID := 1 }).run freshWorld =
        .ok none { freshWorld with out := [.dumped j hj] } ∧
    Serializer.dumpText oneAndHalf 4 false j = .ok reply ∧
    ∀ u : Requester.State, u.pending 0 = some 0 → ∃ rep',
      u.impl.accept floatLibrary (.bytes reply) =
        .ok (some { id := 0, call := 0, response := rep' }) ∧
      SameResponse floatLibrary okResponse rep' := by
  have hpreserved : ∀ p ∈ some (Json.array [.numberFloat 0x3FF8000000000000]),
      p.Storable (Preserves oneAndHalf fun _ => 0x3FF8000000000000) := by
    rintro p ⟨⟩
    exact ⟨preserves_oneAndHalf, trivial⟩
  obtain ⟨request, bytes, params', deed, hwire, hbytes, -, hdeed, hreply⟩ :=
    round_trip_on_wire freshWorld {} (utf8_ascii (by decide)) (binds_ping okResponse) (by decide)
      parseParams_oneAndHalf (fun p hp => .inr (by cases hp; rfl)) hpreserved 1
  obtain rfl : { given := .now okResponse, app := (), requests := id } = deed :=
    Option.some.inj hdeed
  obtain ⟨j, hj, reply, hdump, hrun, hres⟩ := hreply okResponse_encoded
    ⟨fun _ j hj h => by cases h; trivial, fun h => by cases h⟩ (by decide)
  exact ⟨request, bytes, j, hj, reply, hwire, hbytes, hrun, hdump,
    fun u hpending => hres u 0 hpending⟩

end Wire
end Rockets.JsonRpc
