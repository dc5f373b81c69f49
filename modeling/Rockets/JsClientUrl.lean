import Rockets.Bytes

set_option autoImplicit false

/-!
# The address of the JavaScript client

How the address that a client is made with becomes one for a web socket. Strings are given by
their encoding; all strings that are looked for are plain ASCII.
-/
namespace Rockets.Js

def HTTP : Bytes := ascii "http"
def HTTPS : Bytes := ascii "https"
def WS : Bytes := ascii "ws"
def WSS : Bytes := ascii "wss"

def segment : Bytes := ascii "://"

def startsWith (s searchString : Bytes) : Bool := searchString.isPrefixOf s

/-- `replace` with a string as pattern: of the first occurrence only. -/
def replace (searchValue replaceValue : Bytes) : Bytes → Bytes
  | [] => []
  | c :: s =>
    if startsWith (c :: s) searchValue then replaceValue ++ (c :: s).drop searchValue.length
    else c :: replace searchValue replaceValue s

def setWsProtocol (url : Bytes) : Bytes :=
  if startsWith url WS || startsWith url WSS then url
  else if startsWith url HTTP then replace HTTP WS url
  else if startsWith url HTTPS then replace HTTPS WSS url
  else if startsWith url segment then WS ++ url
  else WS ++ segment ++ url

/-! ### What is to become of an address -/

def schemes : List Bytes := [WS, WSS, HTTP, HTTPS]

def target (scheme : Bytes) : Bytes := if scheme = WSS ∨ scheme = HTTPS then WSS else WS

/-- The result has the protocol of a web socket and is left alone from then on. An address with
one of the schemes, or an empty one, keeps what comes after it, and any other address is kept
whole. -/
structure Addresses (url result : Bytes) : Prop where
  protocol : WS ++ segment <+: result ∨ WSS ++ segment <+: result
  fixed : setWsProtocol result = result
  known : ∀ scheme ∈ [] :: schemes, ∀ rest, url = scheme ++ segment ++ rest →
    result = target scheme ++ segment ++ rest
  other : (∀ scheme ∈ [] :: schemes, ¬ scheme ++ segment <+: url) → result = WS ++ segment ++ url

section Addresses
variable {url : Bytes} {scheme rest : Bytes}

theorem startsWith_iff {s searchString : Bytes} :
    startsWith s searchString = true ↔ searchString <+: s :=
  List.isPrefixOf_iff_prefix

theorem replace_append {searchValue : Bytes} (h : searchValue ≠ []) (replaceValue rest : Bytes) :
    replace searchValue replaceValue (searchValue ++ rest) = replaceValue ++ rest := by
  cases searchValue with
  | nil => exact absurd rfl h
  | cons c s =>
    have hstarts : startsWith (c :: (s ++ rest)) (c :: s) = true :=
      startsWith_iff.mpr (List.prefix_append (c :: s) rest)
    rw [List.cons_append, replace, if_pos hstarts]
    simp

theorem setWsProtocol_known (hscheme : scheme ∈ [] :: schemes) (rest : Bytes) :
    setWsProtocol (scheme ++ segment ++ rest) = target scheme ++ segment ++ rest := by
  simp only [schemes, List.mem_cons, List.not_mem_nil, or_false] at hscheme
  rcases hscheme with rfl | rfl | rfl | rfl | rfl <;> rfl

theorem target_mem (scheme : Bytes) : target scheme = WS ∨ target scheme = WSS := by
  unfold target
  split_ifs
  · exact .inr rfl
  · exact .inl rfl

theorem target_target (scheme : Bytes) : target (target scheme) = target scheme := by
  rcases target_mem scheme with h | h <;> rw [h] <;> rfl

theorem addresses_known (hscheme : scheme ∈ [] :: schemes) (rest : Bytes) :
    Addresses (scheme ++ segment ++ rest) (setWsProtocol (scheme ++ segment ++ rest)) := by
  have hresult := setWsProtocol_known hscheme rest
  refine ⟨?_, ?_, fun other hother after heq => ?_, fun hnone => ?_⟩
  · rw [hresult]
    rcases target_mem scheme with h | h
    · exact .inl (h ▸ List.prefix_append _ rest)
    · exact .inr (h ▸ List.prefix_append _ rest)
  · have htarget : target scheme ∈ [] :: schemes := by
      rcases target_mem scheme with h | h <;> rw [h] <;> decide
    rw [hresult, setWsProtocol_known htarget, target_target]
  · rw [heq, setWsProtocol_known hother]
  · exact absurd (List.prefix_append (scheme ++ segment) rest) (hnone scheme hscheme)

theorem setWsProtocol_of_other (hws : ¬ WS <+: url) (hhttp : ¬ HTTP <+: url)
    (hsegment : ¬ segment <+: url) : setWsProtocol url = WS ++ segment ++ url := by
  have hwss : ¬ WSS <+: url := fun h => hws (List.IsPrefix.trans (by decide) h)
  have hhttps : ¬ HTTPS <+: url := fun h => hhttp (List.IsPrefix.trans (by decide) h)
  rw [← startsWith_iff] at hws hhttp hsegment hwss hhttps
  simp only [setWsProtocol, hws, hwss, hhttp, hhttps, hsegment, Bool.or_self, Bool.false_eq_true,
    if_false]

theorem length_setWsProtocol_le (h : WS <+: url ∨ HTTP <+: url) :
    (setWsProtocol url).length ≤ url.length := by
  by_cases hws : WS <+: url
  · simp [setWsProtocol, startsWith_iff.mpr hws]
  · obtain ⟨rest, rfl⟩ := h.resolve_left hws
    have hwss : ¬ WSS <+: HTTP ++ rest := fun h => hws (List.IsPrefix.trans (by decide) h)
    have hhttp : startsWith (HTTP ++ rest) HTTP = true :=
      startsWith_iff.mpr (List.prefix_append _ _)
    rw [← startsWith_iff] at hws hwss
    simp only [setWsProtocol, hws, hwss, hhttp, Bool.or_self, Bool.false_eq_true, if_false, if_true]
    rw [replace_append (by decide)]
    simp only [List.length_append]
    exact Nat.add_le_add_right (by decide) _

/-- An address becomes what it is to become just when, if it begins with the name of a scheme,
it has a scheme. -/
theorem addresses_iff (url : Bytes) : Addresses url (setWsProtocol url) ↔
    (WS <+: url ∨ HTTP <+: url → ∃ scheme ∈ schemes, scheme ++ segment <+: url) := by
  constructor
  · intro h hname
    by_contra hnone
    have hempty : ¬ segment <+: url := by
      rintro ⟨rest, rfl⟩
      rcases hname with ⟨after, heq⟩ | ⟨after, heq⟩
      · exact absurd (congrArg List.head? heq) (show WS.head? ≠ segment.head? by decide)
      · exact absurd (congrArg List.head? heq) (show HTTP.head? ≠ segment.head? by decide)
    have hwhole := h.other fun scheme hscheme hpre => by
      rcases List.mem_cons.mp hscheme with rfl | hscheme
      · exact hempty hpre
      · exact hnone ⟨scheme, hscheme, hpre⟩
    have hle := length_setWsProtocol_le hname
    rw [hwhole, List.length_append] at hle
    have hlonger : 0 < (WS ++ segment).length := by decide
    omega
  · intro h
    by_cases hknown : ∃ scheme ∈ [] :: schemes, scheme ++ segment <+: url
    · obtain ⟨scheme, hscheme, rest, rfl⟩ := hknown
      exact addresses_known hscheme rest
    · have hname : ¬ (WS <+: url ∨ HTTP <+: url) := fun hname => by
        obtain ⟨scheme, hscheme, hpre⟩ := h hname
        exact hknown ⟨scheme, List.mem_cons_of_mem _ hscheme, hpre⟩
      obtain ⟨hws, hhttp⟩ := not_or.mp hname
      have hresult := setWsProtocol_of_other hws hhttp fun hpre =>
        hknown ⟨[], List.mem_cons_self, hpre⟩
      have hfixed : setWsProtocol (WS ++ segment ++ url) = WS ++ segment ++ url :=
        setWsProtocol_known (by decide) url
      rw [hresult]
      refine ⟨.inl (List.prefix_append _ _), hfixed, fun scheme hscheme rest heq => ?_,
        fun _ => rfl⟩
      exact absurd ⟨scheme, hscheme, rest, heq.symm⟩ hknown

/-- A host whose name begins like a scheme is not given one. -/
theorem wsserver_kept : ¬ ∀ url, Addresses url (setWsProtocol url) := by
  intro hall
  have hprotocol := (hall (ascii "wsserver.io")).protocol
  revert hprotocol
  decide

end Addresses
end Rockets.Js
