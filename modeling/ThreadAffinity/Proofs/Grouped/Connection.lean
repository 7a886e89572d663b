import Mathlib.Algebra.Ring.Nat
import ThreadAffinity.Grouped.Backend
import ThreadAffinity.Proofs.Course
import ThreadAffinity.Proofs.Topology.RoundTrip

/-!
# Connecting to a grouped system

A connection asks how long the topology data is and then for the data. The system is not
trusted in any of this. It may refuse either question, store any length with a refusal or
without one, write more bytes than there is room for, or less than it says.

`Connected` lists the ends of connecting, with the questions that were asked, and
`connect_outcome` says that there are no others. What is decoded in the end is `Legible`: it
lies within the buffer and within the length that was stored with it, and a byte of it is one
that the system wrote or else zero. Nothing else about the second reply makes a difference
(`connect_value_congr`).
-/

namespace ThreadAffinity

namespace Grouped

variable {σ τ : Type} {label : String} {groups : List Group} {size k : Nat}
  {reply other : QueryReply} {bytes buffer written : List UInt8}

/-! ## What is read of a buffer -/

theorem getElem?_overwrite (hk : k < buffer.length) :
    (overwrite buffer written)[k]? = some (written.getD k buffer[k]) := by
  rw [overwrite, List.getElem?_append, List.length_take, List.getElem?_take_of_lt hk,
    List.getElem?_drop, List.getD_eq_getElem?_getD]
  by_cases hwritten : k < written.length
  · rw [if_pos (by omega), List.getElem?_eq_getElem hwritten, Option.getD_some]
  · -- the front is used up, so that the buffer itself is seen
    have hkept : written.length + (k - min buffer.length written.length) = k := by omega
    rw [if_neg (by omega), hkept, List.getElem?_eq_none (Nat.le_of_not_lt hwritten),
      Option.getD_none, List.getElem?_eq_getElem hk]

/-- The bytes to be read of a buffer of `size` zero bytes after a reply: those that lie within
the buffer and within the length that the reply stored. -/
structure Legible (size : Nat) (reply : QueryReply) (bytes : List UInt8) : Prop where
  eq_take : bytes = (overwrite (List.replicate size 0) reply.written).take (min size reply.length)
  length_eq : bytes.length = min size reply.length
  getElem?_eq : ∀ k < min size reply.length, bytes[k]? = some (reply.written.getD k 0)

theorem legible_take (size : Nat) (reply : QueryReply) :
    Legible size reply ((overwrite (List.replicate size 0) reply.written).take reply.length) := by
  have hlength : (overwrite (List.replicate size 0) reply.written).length = size := by
    rw [length_overwrite, List.length_replicate]
  refine ⟨?_, ?_, fun k hk => ?_⟩
  · rw [List.take_eq_take_iff, hlength]
    omega
  · rw [List.length_take, hlength, Nat.min_comm]
  · have hbuffer : k < (List.replicate size (0 : UInt8)).length := by
      rw [List.length_replicate]
      omega
    rw [List.getElem?_take_of_lt (by omega), getElem?_overwrite hbuffer, List.getElem_replicate]

/-- Two replies that look alike through a buffer of `size` bytes. -/
structure Alike (size : Nat) (reply other : QueryReply) : Prop where
  verdict_eq : reply.verdict = other.verdict
  length_eq : min size reply.length = min size other.length
  written_eq : ∀ k < min size reply.length, reply.written.getD k 0 = other.written.getD k 0

theorem Legible.eq_of_alike {shown : List UInt8} (h : Legible size reply bytes)
    (hother : Legible size other shown) (halike : Alike size reply other) : bytes = shown := by
  have hlength := halike.length_eq
  refine List.ext_getElem? fun k => ?_
  by_cases hk : k < min size reply.length
  · rw [h.getElem?_eq k hk, hother.getElem?_eq k (hlength ▸ hk), halike.written_eq k hk]
  · have := h.length_eq
    have := hother.length_eq
    rw [List.getElem?_eq_none (by omega), List.getElem?_eq_none (by omega)]

/-! ## What a connection counts -/

theorem total_eq_sum (groups : List Group) :
    Group.total groups = (groups.map (·.count.toNat)).sum := by
  induction groups with
  | nil => rfl
  | cons grp groups ih => rw [Group.total_cons, ih, List.map_cons, List.sum_cons]

theorem total_le (groups : List Group) : Group.total groups ≤ 255 * groups.length := by
  induction groups with
  | nil => exact Nat.le_refl 0
  | cons grp groups ih =>
      have hcount : grp.count.toNat < 256 := grp.count.toNat_lt
      rw [Group.total_cons, List.length_cons]
      omega

/-- The connection works with these groups. It counts their processors without asking again,
and the number fits into 32 bits. -/
structure Serves (label : String) (groups : List Group) (connection : Backend interface Editor) :
    Prop where
  eq_backend : connection = backend label groups
  count_run : ∀ (σ : Type) (system : System interface σ) (state : σ),
    connection.processorCount.run system state =
      ⟨(groups.map (·.count.toNat)).sum, state, []⟩
  count_lt : (groups.map (·.count.toNat)).sum < 2 ^ 32

theorem serves_backend (label : String) (hdecoded : Topology.decode bytes = .ok groups) :
    Serves label groups (backend label groups) where
  eq_backend := rfl
  count_run := fun σ system state => by rw [← total_eq_sum]; rfl
  count_lt := by
    have hlength := (Topology.length_of_decode hdecoded).2
    have htotal := total_le groups
    rw [← total_eq_sum]
    unfold Topology.groupLimit at hlength
    omega

/-! ## The ends -/

/-- The query failed in one of its stages, and this status is reported for it. -/
structure Fails (stage : QueryStage) (status : Int) (source : Option Refusal) (error : Error) :
    Prop where
  eq_topologyQuery : error = .topologyQuery stage source
  message_eq : error.message = "processor group topology query failed during " ++ stage.name ++
    " with status " ++ toString status

theorem fails_ungrounded (stage : QueryStage) : Fails stage 0 none (.topologyQuery stage none) :=
  ⟨rfl, rfl⟩

theorem fails_refused (stage : QueryStage) (cause : Refusal) :
    Fails stage cause.status (some cause) (.topologyQuery stage (some cause)) :=
  ⟨rfl, rfl⟩

/-- The second question comes with a zeroed buffer of the length that was stored with the reply
to the first. -/
def queried (probe filled : QueryReply) : List (Entry interface) :=
  [.call (.query [] 0) probe, .call (.query (List.replicate probe.length 0) probe.length) filled]

/-- The ends of connecting. The first question fails if it is granted, or refused for any other
reason than that the buffer is too small. The second one fails if it is refused. Otherwise what
is legible in the buffer cannot be decoded or can. -/
inductive Connected (label : String) :
    List (Entry interface) → Except Error (Backend interface Editor) → Prop
  | untimely (probe : QueryReply) (error : Error) (h : probe.verdict = .ok ())
      (herror : Fails .probe 0 none error) :
      Connected label [.call (.query [] 0) probe] (.error error)
  | unmeasured (probe : QueryReply) (cause : Refusal) (error : Error)
      (h : probe.verdict = .error cause) (hcause : cause ≠ .code 122)
      (herror : Fails .probe cause.status (some cause) error) :
      Connected label [.call (.query [] 0) probe] (.error error)
  | unfilled (probe filled : QueryReply) (cause : Refusal) (error : Error)
      (h : probe.verdict = .error (.code 122)) (hfilled : filled.verdict = .error cause)
      (herror : Fails .fill cause.status (some cause) error) :
      Connected label (queried probe filled) (.error error)
  | misread (probe filled : QueryReply) (bytes : List UInt8) (problem : Topology.Problem)
      (h : probe.verdict = .error (.code 122)) (hfilled : filled.verdict = .ok ())
      (hbytes : Legible probe.length filled bytes)
      (hdecoded : Topology.decode bytes = .error problem) :
      Connected label (queried probe filled) (.error (.malformedTopology problem))
  | loaded (probe filled : QueryReply) (bytes : List UInt8) (groups : List Group)
      (connection : Backend interface Editor)
      (h : probe.verdict = .error (.code 122)) (hfilled : filled.verdict = .ok ())
      (hbytes : Legible probe.length filled bytes)
      (hdecoded : Topology.decode bytes = .ok groups)
      (hconnection : Serves label groups connection) :
      Connected label
        (queried probe filled ++ [.event (.topologyLoaded groups.length (Group.total groups))])
        (.ok connection)

theorem connect_run (label : String) (system : System interface σ) (state : σ) :
    let outcome := (connect label).run system state
    Connected label outcome.entries outcome.value := by
  simp only [connect, Dialogue.run_bind, load, Dialogue.run_ask]
  obtain ⟨probe, after⟩ := system.answer (.query [] 0) state
  cases hprobe : probe.verdict with
  | ok granted => exact .untimely probe _ hprobe (fails_ungrounded .probe)
  | error cause =>
      by_cases hcause : cause = .code insufficientBuffer
      · subst hcause
        simp only [if_true, fill, Dialogue.run_ask]
        obtain ⟨filled, last⟩ :=
          system.answer (.query (List.replicate probe.length 0) probe.length) after
        have hbytes := legible_take probe.length filled
        cases hfilled : filled.verdict with
        | error cause => exact .unfilled probe filled cause _ hprobe hfilled (fails_refused .fill cause)
        | ok granted =>
            simp only
            split
            · rename_i problem hdecoded
              exact .misread probe filled _ problem hprobe hfilled hbytes hdecoded
            · rename_i groups hdecoded
              exact .loaded probe filled _ groups _ hprobe hfilled hbytes hdecoded
                (serves_backend label hdecoded)
      · simp only [if_neg hcause]
        exact .unmeasured probe cause _ hprobe hcause (fails_refused .probe cause)

theorem Connected.exchanges {entries : List (Entry interface)}
    {result : Except Error (Backend interface Editor)} (h : Connected label entries result) :
    ∃ probe rest, exchangesOf entries = ⟨.query [] 0, probe⟩ :: rest ∧
      (probe.verdict ≠ .error (.code 122) → rest = []) ∧
      (probe.verdict = .error (.code 122) → ∃ filled : QueryReply,
        rest = [⟨.query (List.replicate probe.length 0) probe.length, filled⟩]) := by
  cases h with
  | untimely probe error hprobe herror =>
      exact ⟨probe, [], rfl, fun _ => rfl, fun hsmall => by rw [hprobe] at hsmall; cases hsmall⟩
  | unmeasured probe cause error hprobe hcause herror =>
      refine ⟨probe, [], rfl, fun _ => rfl, fun hsmall => absurd ?_ hcause⟩
      exact Except.error.inj (hprobe.symm.trans hsmall)
  | unfilled probe filled cause error hprobe hfilled herror =>
      exact ⟨probe, _, rfl, fun hother => absurd hprobe hother, fun _ => ⟨filled, rfl⟩⟩
  | misread probe filled bytes problem hprobe hfilled hbytes hdecoded =>
      exact ⟨probe, _, rfl, fun hother => absurd hprobe hother, fun _ => ⟨filled, rfl⟩⟩
  | loaded probe filled bytes groups connection hprobe hfilled hbytes hdecoded hconnection =>
      exact ⟨probe, _, rfl, fun hother => absurd hprobe hother, fun _ => ⟨filled, rfl⟩⟩

/-! ## What makes no difference -/

theorem fill_value_congr (system : System interface σ) (twin : System interface τ) (state : σ)
    (now : τ) (h : Alike size (system.answer (.query (List.replicate size 0) size) state).1
      (twin.answer (.query (List.replicate size 0) size) now).1) :
    ((fill size).run system state).value = ((fill size).run twin now).value := by
  simp only [fill, Dialogue.run_ask]
  generalize system.answer (.query (List.replicate size 0) size) state = first at h ⊢
  generalize twin.answer (.query (List.replicate size 0) size) now = second at h ⊢
  have hbytes := (legible_take size first.1).eq_of_alike (legible_take size second.1) h
  obtain ⟨⟨verdict, written, length⟩, after⟩ := first
  obtain ⟨⟨verdict', written', length'⟩, last⟩ := second
  obtain rfl : verdict = verdict' := h.verdict_eq
  simp only [hbytes]
  cases verdict with
  | error cause => rfl
  | ok granted =>
      simp only
      split
      · rfl
      · rfl

/-- What a system writes behind the buffer or behind the length that it stores, and how long it
says the data is beyond the buffer, makes no difference. -/
theorem connect_value_congr (label : String) (system : System interface σ)
    (twin : System interface τ) (state : σ) (now : τ)
    (hverdict : (system.answer (.query [] 0) state).1.verdict =
      (twin.answer (.query [] 0) now).1.verdict)
    (hlength : (system.answer (.query [] 0) state).1.length = size ∧
      (twin.answer (.query [] 0) now).1.length = size)
    (hfill : Alike size
      (system.answer (.query (List.replicate size 0) size)
        (system.answer (.query [] 0) state).2).1
      (twin.answer (.query (List.replicate size 0) size) (twin.answer (.query [] 0) now).2).1) :
    ((connect label).run system state).value = ((connect label).run twin now).value := by
  have hload : (load.run system state).value = (load.run twin now).value := by
    simp only [load, Dialogue.run_ask, ← hverdict, hlength.1, hlength.2]
    cases QueryReply.verdict (system.answer (.query [] 0) state).1 with
    | ok granted => rfl
    | error cause =>
        simp only
        split
        · exact fill_value_congr system twin _ _ hfill
        · rfl
  simp only [connect, Dialogue.run_bind, hload]
  cases (load.run twin now).value with
  | error error => rfl
  | ok groups => rfl

/-! ## Every system -/

/-- Whatever a system replies, connecting to it asks once with an empty buffer, and exactly if
this is refused as too small it asks a second time, with a zeroed buffer of the length that was
stored. Nothing else is asked, and with the replies of the system it comes to one of the listed
ends. -/
theorem connect_outcome (label : String) (system : System interface σ) (state : σ) :
    let outcome := (connect label).run system state
    Connected label outcome.entries outcome.value ∧
      Replied system state (exchangesOf outcome.entries) outcome.state ∧
      ∃ probe rest, exchangesOf outcome.entries = ⟨.query [] 0, probe⟩ :: rest ∧
        (probe.verdict ≠ .error (.code 122) → rest = []) ∧
        (probe.verdict = .error (.code 122) → ∃ filled : QueryReply,
          rest = [⟨.query (List.replicate probe.length 0) probe.length, filled⟩]) := by
  intro outcome
  have hconnected : Connected label outcome.entries outcome.value := connect_run label system state
  exact ⟨hconnected, Dialogue.run_replied system (connect label) state, hconnected.exchanges⟩

end Grouped

end ThreadAffinity
