import Parley.Proofs.Server.Trace
import Parley.Proofs.Transport.Messages

/-!
# A ledger of requests

What has become of the requests on a connection is recorded for both of its ends: which were
begun, which were handed to the handler and which were answered. In a balanced ledger
(`Ledger.Balanced`) each of these is the beginning of the one before, and at most one request
is begun and not answered. So at most one response is pending, and it belongs to the request
that the client is in the middle of; and messages are pending one way at a time
(`Ledger.Balanced.pending_one_way`).
-/

namespace Parley

/-- What has become of the requests on a connection, at both of its ends. -/
structure Ledger where
  /-- The requests that the client has begun to write. -/
  begun : List Message
  /-- The bytes of requests that have still to be written. -/
  requestsLeft : List UInt8
  /-- The requests that the worker has handed to the handler, with the replies. -/
  handled : List (Message × Reply)
  /-- The bytes of responses that have still to be written. -/
  responsesLeft : List UInt8
  /-- The requests that the client got a response to, with the response. -/
  answered : List (Message × Message)

namespace Ledger

variable {ledger : Ledger} {max : UInt32}

/-- The requests that were begun and not yet handed to the handler. -/
def pendingRequests (ledger : Ledger) : List Message :=
  ledger.begun.drop ledger.handled.length

/-- The responses that were given and not yet told to the client. -/
def pendingResponses (ledger : Ledger) (max : UInt32) : List Message :=
  (ledger.handled.drop ledger.answered.length).filterMap fun entry => entry.2.within? max

/-- The requests are handled and answered in order, and at most one at a time. -/
structure Balanced (ledger : Ledger) (max : UInt32) : Prop where
  single : ledger.begun.length ≤ ledger.answered.length + 1
  fits : ∀ request ∈ ledger.begun, request.encode.length < UInt32.size
  handed : ledger.handled.map Prod.fst <+: ledger.begun.map Message.rewind
  told : ledger.answered.map Prod.fst <+: ledger.begun
  replied : ledger.answered.map (fun entry => some entry.2) <+:
    ledger.handled.map fun entry => (entry.2.within? max).map Message.rewind

theorem Balanced.length_handled_le (h : ledger.Balanced max) :
    ledger.handled.length ≤ ledger.begun.length := by
  have hle := h.handed.length_le
  rwa [List.length_map, List.length_map] at hle

theorem Balanced.length_answered_le (h : ledger.Balanced max) :
    ledger.answered.length ≤ ledger.handled.length := by
  have hle := h.replied.length_le
  rwa [List.length_map, List.length_map] at hle

theorem Balanced.fits_pendingRequests (h : ledger.Balanced max) :
    ∀ request ∈ ledger.pendingRequests, request.encode.length < UInt32.size :=
  fun request hm => h.fits request (List.mem_of_mem_drop hm)

theorem fits_pendingResponses (ledger : Ledger) (max : UInt32) :
    ∀ response ∈ ledger.pendingResponses max, response.encode.length < UInt32.size := by
  intro response hm
  obtain ⟨entry, -, hentry⟩ := List.mem_filterMap.mp hm
  exact Nat.lt_of_le_of_lt (Reply.eq_of_within? hentry).2 max.toNat_lt

theorem Balanced.write (h : ledger.Balanced max) (requestsLeft responsesLeft : List UInt8) :
    ({ ledger with requestsLeft, responsesLeft } : Ledger).Balanced max :=
  ⟨h.single, h.fits, h.handed, h.told, h.replied⟩

theorem prefix_concat {α : Type} {part all : List α} {next : α} (h : part <+: all)
    (hnext : ∃ more, all.drop part.length = next :: more) : part ++ [next] <+: all := by
  obtain ⟨rest, rfl⟩ := h
  obtain ⟨more, hnext⟩ := hnext
  rw [List.drop_left] at hnext
  exact ⟨more, by rw [hnext, List.append_assoc]; rfl⟩

theorem Balanced.begin (h : ledger.Balanced max)
    (hbegun : ledger.begun = ledger.answered.map Prod.fst) {request : Message}
    (hfits : request.encode.length < UInt32.size) (left : List UInt8) :
    ({ ledger with begun := ledger.begun ++ [request], requestsLeft := left } : Ledger).Balanced
      max where
  single := by simp [hbegun]
  fits := by
    intro message hm
    rcases List.mem_append.mp hm with hm | hm
    · exact h.fits message hm
    · rwa [List.mem_singleton.mp hm]
  handed := by
    rw [List.map_append]
    exact h.handed.trans (List.prefix_append _ _)
  told := h.told.trans (List.prefix_append _ _)
  replied := h.replied

theorem pendingRequests_begin (h : ledger.Balanced max) (request : Message)
    (left : List UInt8) :
    ({ ledger with begun := ledger.begun ++ [request], requestsLeft := left } :
      Ledger).pendingRequests = ledger.pendingRequests ++ [request] :=
  List.drop_append_of_le_length h.length_handled_le

theorem getElem?_of_prefix {α : Type} {part all : List α} {k : Nat} {value : α}
    (h : part <+: all) (hk : part[k]? = some value) : all[k]? = some value := by
  obtain ⟨hlt, rfl⟩ := List.getElem?_eq_some_iff.mp hk
  exact List.prefix_iff_getElem?.mp h k hlt

/-- The response to a request is what the handler replied to it. -/
theorem Balanced.exists_reply (h : ledger.Balanced max) {k : Nat} {request response : Message}
    (hk : ledger.answered[k]? = some (request, response)) :
    ∃ reply, ledger.handled[k]? = some (request.rewind, .response reply) ∧
      response = reply.rewind := by
  have htold : ledger.begun[k]? = some request := getElem?_of_prefix h.told (by simp [hk])
  have hreplied := getElem?_of_prefix h.replied (List.getElem?_map.trans (congrArg _ hk))
  rw [List.getElem?_map, Option.map_eq_some_iff] at hreplied
  obtain ⟨entry, hentry, hresponse⟩ := hreplied
  obtain ⟨reply, hwithin, rfl⟩ := Option.map_eq_some_iff.mp hresponse
  have hhanded := getElem?_of_prefix h.handed (List.getElem?_map.trans (congrArg _ hentry))
  rw [List.getElem?_map, htold] at hhanded
  refine ⟨reply, ?_, rfl⟩
  rw [hentry, ← (Reply.eq_of_within? hwithin).1, Option.some.inj hhanded]

theorem Balanced.handle (h : ledger.Balanced max) {request : Message} {more : List Message}
    (hnext : ledger.pendingRequests = request :: more) (reply : Reply) (left : List UInt8) :
    ({ ledger with handled := ledger.handled ++ [(request.rewind, reply)], responsesLeft := left } :
      Ledger).Balanced max where
  single := h.single
  fits := h.fits
  handed := by
    rw [List.map_append]
    refine prefix_concat h.handed ⟨more.map Message.rewind, ?_⟩
    rw [List.length_map, ← List.map_drop]
    exact congrArg (List.map Message.rewind) hnext
  told := h.told
  replied := by
    rw [List.map_append]
    exact h.replied.trans (List.prefix_append _ _)

theorem pendingRequests_handle {request : Message} {more : List Message}
    (hnext : ledger.pendingRequests = request :: more) (entry : Message × Reply)
    (left : List UInt8) :
    ({ ledger with handled := ledger.handled ++ [entry], responsesLeft := left } :
      Ledger).pendingRequests = more := by
  simp only [pendingRequests, List.length_append, List.length_singleton]
  rw [← List.tail_drop]
  exact congrArg List.tail hnext

theorem pendingResponses_handle (h : ledger.Balanced max) (entry : Message × Reply)
    (left : List UInt8) :
    ({ ledger with handled := ledger.handled ++ [entry], responsesLeft := left } :
      Ledger).pendingResponses max =
      ledger.pendingResponses max ++ (entry.2.within? max).toList := by
  simp only [pendingResponses]
  rw [List.drop_append_of_le_length h.length_answered_le, List.filterMap_append]
  cases hw : entry.2.within? max <;> simp [hw]

theorem Balanced.pendingResponses_cons (h : ledger.Balanced max) {response : Message}
    {more : List Message} (hnext : ledger.pendingResponses max = response :: more) :
    ∃ entry, ledger.handled.drop ledger.answered.length = [entry] ∧
      entry.2.within? max = some response ∧ more = [] := by
  have hlen : (ledger.handled.drop ledger.answered.length).length ≤ 1 := by
    have hhandled := h.length_handled_le
    have hsingle := h.single
    rw [List.length_drop]
    omega
  rw [pendingResponses] at hnext
  match hdrop : ledger.handled.drop ledger.answered.length with
  | [] => rw [hdrop] at hnext; cases hnext
  | first :: second :: rest => rw [hdrop] at hlen; simp at hlen
  | [entry] =>
    rw [hdrop] at hnext
    cases hw : entry.2.within? max with
    | none => simp [hw] at hnext
    | some message =>
      simp only [List.filterMap_cons, hw, List.filterMap_nil, List.cons.injEq] at hnext
      obtain ⟨rfl, hmore⟩ := hnext
      exact ⟨entry, rfl, hw, hmore.symm⟩

/-- Messages are pending one way at a time. -/
theorem Balanced.pending_one_way (h : ledger.Balanced max) :
    ledger.pendingRequests = [] ∨ ledger.pendingResponses max = [] := by
  by_cases hle : ledger.begun.length ≤ ledger.handled.length
  · exact .inl (List.drop_eq_nil_of_le hle)
  · refine .inr ?_
    have hsingle := h.single
    have hnone : ledger.handled.drop ledger.answered.length = [] :=
      List.drop_eq_nil_of_le (by omega)
    rw [pendingResponses, hnone]
    rfl

/-- A request that is not answered is pending or its response is, as long as every reply is
sent. -/
theorem pending_of_begun (hbegun : ledger.answered.length < ledger.begun.length)
    (hsent : ∀ entry ∈ ledger.handled, (entry.2.within? max).isSome) :
    ledger.pendingRequests ≠ [] ∨ ledger.pendingResponses max ≠ [] := by
  by_cases hlt : ledger.handled.length < ledger.begun.length
  · refine .inl fun hnone => ?_
    have hle := List.drop_eq_nil_iff.mp hnone
    omega
  · refine .inr fun hnone => ?_
    have hlast : ledger.answered.length < ledger.handled.length := by omega
    have hentry : ledger.handled[ledger.answered.length] ∈
        ledger.handled.drop ledger.answered.length := by
      rw [List.drop_eq_getElem_cons hlast]
      exact List.mem_cons_self
    have hlost := List.filterMap_eq_nil_iff.mp hnone _ hentry
    have hgiven := hsent _ (List.mem_of_mem_drop hentry)
    rw [hlost] at hgiven
    cases hgiven

theorem Balanced.answer (h : ledger.Balanced max) {request response : Message}
    {more : List Message} (hbegun : ledger.begun = ledger.answered.map Prod.fst ++ [request])
    (hnext : ledger.pendingResponses max = response :: more) :
    ({ ledger with answered := ledger.answered ++ [(request, response.rewind)] } :
      Ledger).Balanced max := by
  obtain ⟨entry, hdrop, hwithin, -⟩ := h.pendingResponses_cons hnext
  exact {
    single := by simp [hbegun]
    fits := h.fits
    handed := h.handed
    told := by simp [hbegun]
    replied := by
      rw [List.map_append]
      refine prefix_concat h.replied ⟨[], ?_⟩
      rw [List.length_map, ← List.map_drop, hdrop, List.map_singleton, hwithin]
      rfl }

theorem pendingResponses_answer (h : ledger.Balanced max) {response : Message}
    {more : List Message} (hnext : ledger.pendingResponses max = response :: more)
    (entry : Message × Message) :
    ({ ledger with answered := ledger.answered ++ [entry] } : Ledger).pendingResponses max =
      more := by
  obtain ⟨last, hdrop, -, rfl⟩ := h.pendingResponses_cons hnext
  simp only [pendingResponses, List.length_append, List.length_singleton]
  rw [← List.tail_drop, hdrop]
  rfl

end Ledger

end Parley
