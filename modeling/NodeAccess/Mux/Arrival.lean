import NodeAccess.Mux.Invariant

/-! # Streams that begin and frames that arrive

An Open of either end uses an id that no frame and no stream has used before. Any other
frame that arrives adds to what one stream has been served, and closes or feeds no other.
-/

namespace NodeAccess.Mux

open Foundation

namespace Endpoint

variable {first : UInt32} {e : Endpoint} {i : UInt32} {request : OpenRequest}

structure Fresh (e : Endpoint) (i : UInt32) : Prop where
  sent : ∀ f ∈ e.sent, f.streamId ≠ some i
  arrived : ∀ f ∈ e.arrived, f.streamId ≠ some i
  stream : ∀ r s, e.stream r = some s → s.streamId ≠ i

theorem Sound.fresh_opening (h : e.Sound first) (hi : (i, request) ∈ e.opening) :
    Own first i ∧ e.Fresh i := by
  obtain ⟨⟨k, -, hk⟩, hno⟩ := h.opening _ hi
  have hown : Own first i := by
    rw [show i = idAt first k from hk]
    exact own_idAt first k
  have hstream : ∀ r s, e.stream r = some s → s.streamId ≠ i := by
    rintro r s hs rfl
    exact hno (h.own r s hs hown)
  refine ⟨hown, ?_, ?_, hstream⟩
  · intro f hf hfi
    obtain ⟨r, s, hs, hid⟩ := h.sentBy f hf i hfi
    exact hstream r s hs hid
  · intro f hf hfi
    exact hno (h.heard f hf i hfi hown)

theorem Sound.fresh_arriving (h : e.Sound first) (ha : Accepts first e (.openStream i request)) :
    ¬ Own first i ∧ e.Fresh i := by
  obtain ⟨hforeign, harrived⟩ := ha.opens i request rfl
  have hstream : ∀ r s, e.stream r = some s → s.streamId ≠ i := by
    rintro r s hs rfl
    obtain ⟨q, hm⟩ := h.foreign r s hs hforeign
    exact harrived _ hm rfl
  refine ⟨hforeign, ?_, harrived, hstream⟩
  intro f hf hfi
  obtain ⟨r, s, hs, hid⟩ := h.sentBy f hf i hfi
  exact hstream r s hs hid

theorem Sound.opening_erase (h : e.Sound first) (hi : (i, request) ∈ e.opening) :
    ∀ p ∈ e.opening.erase (i, request), p ∈ e.opening ∧ p.1 ≠ i := by
  intro p hp
  have hnodup : e.opening.Nodup := h.openingOnce.of_map
  obtain ⟨hne, hmem⟩ := hnodup.mem_erase_iff.mp hp
  refine ⟨hmem, fun he => hne ?_⟩
  exact List.inj_on_of_nodup_map h.openingOnce hmem hi he

theorem onlyOpens_append {frames : List MuxFrame} {other : Option MuxFrame}
    (h : ∀ f ∈ frames, f.streamId ≠ some i) (ho : ∀ f ∈ other, f = .openStream i request) :
    ∀ f ∈ frames ++ other.toList, f.streamId = some i → f.isOpen = true := by
  intro f hf he
  rcases List.mem_append.mp hf with hf | hf
  · exact absurd he (h f hf)
  · rw [ho f (Option.mem_toList.mp hf)]
    rfl

/-- The frames that announce a stream: sent for an own one, arrived for one of the peer. -/
inductive Announces (first : UInt32) (e : Endpoint) (i : UInt32) (request : OpenRequest) :
    Option MuxFrame → Option MuxFrame → Prop where
  | own (k : ℕ) (hk : k < e.opened) (hi : i = idAt first k) :
    Announces first e i request (some (.openStream i request)) none
  | foreign (hi : ¬ Own first i) : Announces first e i request none (some (.openStream i request))

theorem Announces.frame {out heard : Option MuxFrame} (h : Announces first e i request out heard)
    {f : MuxFrame} (hf : f ∈ out ∨ f ∈ heard) : f = .openStream i request := by
  cases h with
  | own => simpa [eq_comm] using hf
  | foreign => simpa [eq_comm] using hf

theorem Fresh.serves_new (h : e.Fresh i) {out heard : Option MuxFrame}
    (hout : ∀ f ∈ out, f = .openStream i request) (hheard : ∀ f ∈ heard, f = .openStream i request)
    {e' : Endpoint} (htable : e'.streams.get i = some e.created)
    (hsent : e'.sent = e.sent ++ out.toList) (harrived : e'.arrived = e.arrived ++ heard.toList) :
    e'.Serves e.created (.new i) := by
  have hquiet : ∀ f ∈ e'.sent, f.streamId = some i → f.isOpen = true := by
    rw [hsent]
    exact onlyOpens_append h.sent hout
  have hquiet' : ∀ f ∈ e'.arrived, f.streamId = some i → f.isOpen = true := by
    rw [harrived]
    exact onlyOpens_append h.arrived hheard
  have hclose : .close i ∉ e'.sent := fun hm => Bool.false_ne_true (hquiet _ hm rfl)
  have hclose' : .close i ∉ e'.arrived := fun hm => Bool.false_ne_true (hquiet' _ hm rfl)
  have hcarried := carried_eq_nil hquiet
  have hcarried' := carried_eq_nil hquiet'
  constructor
  case entry =>
    intro _
    exact htable.trans (if_neg hclose').symm
  case content =>
    intro _
    exact hcarried'.symm
  case handed => exact List.nil_prefix
  case written => exact hcarried.symm
  case accepted => exact (carriedAll_eq_nil hquiet).symm
  case closeOnce => exact (List.count_eq_zero_of_not_mem hclose).trans_le zero_le_one
  case unclosed =>
    intro _
    exact hclose
  case closed =>
    intro hc
    cases hc

theorem Fresh.stream_cases (hfresh : e.Fresh i) {r : StreamRef} {s : VirtualStream}
    (hs : Function.update e.stream e.created (some (.new i)) r = some s) :
    (r = e.created ∧ s = .new i) ∨ (r ≠ e.created ∧ e.stream r = some s ∧ s.streamId ≠ i) := by
  rcases update_some_cases hs with hnew | ⟨hr, hold⟩
  · exact .inl hnew
  · exact .inr ⟨hr, hold, hfresh.stream r s hold⟩

theorem Sound.stream_of_created (h : e.Sound first) {r : StreamRef} {s new : VirtualStream}
    (hs : e.stream r = some s) : Function.update e.stream e.created (some new) r = some s := by
  rw [Function.update_of_ne (h.ref r s hs).ne, hs]

theorem Announces.openIn_sent {out heard : Option MuxFrame}
    (hann : Announces first e i request out heard) {j : UInt32}
    (ho : OpenIn j (e.sent ++ out.toList)) : OpenIn j e.sent ∨ (j = i ∧ Own first i) := by
  obtain ⟨q, hm⟩ := ho
  rcases List.mem_append.mp hm with hm | hm
  · exact .inl ⟨q, hm⟩
  · cases hann with
    | own k hk hi =>
      simp only [Option.toList_some, List.mem_singleton, MuxFrame.openStream.injEq] at hm
      exact .inr ⟨hm.1, hi ▸ own_idAt first k⟩
    | foreign hi => cases hm

theorem Sound.insert (h : e.Sound first) (hfresh : e.Fresh i) {out heard : Option MuxFrame}
    (hann : Announces first e i request out heard) {opening : List (UInt32 × OpenRequest)}
    (hopening : ∀ p ∈ opening, p ∈ e.opening ∧ p.1 ≠ i) (hsub : opening.Sublist e.opening) :
    Sound first { e with
      streams := e.streams.insert i e.created
      stream := Function.update e.stream e.created (some (.new i))
      created := e.created + 1
      opening := opening
      sent := e.sent ++ out.toList
      arrived := e.arrived ++ heard.toList } := by
  have hout : ∀ f ∈ out, f = .openStream i request := fun f hf => hann.frame (.inl hf)
  have hheard : ∀ f ∈ heard, f = .openStream i request := fun f hf => hann.frame (.inr hf)
  constructor
  case next => exact h.next
  case opening =>
    intro p hp
    obtain ⟨hmem, hne⟩ := hopening p hp
    refine ⟨(h.opening p hmem).1, fun ho => ?_⟩
    rcases hann.openIn_sent ho with ho | ⟨he, -⟩
    · exact (h.opening p hmem).2 ho
    · exact hne he
  case openingOnce => exact h.openingOnce.sublist (hsub.map Prod.fst)
  case ref =>
    intro r s hs
    rcases hfresh.stream_cases hs with ⟨rfl, -⟩ | ⟨-, hs, -⟩
    · exact Nat.lt_succ_self _
    · exact Nat.lt_succ_of_lt (h.ref r s hs)
  case entry =>
    intro j r hr
    dsimp only at hr ⊢
    rw [Table.get_insert] at hr
    split_ifs at hr with hj
    · obtain rfl := Option.some.inj hr
      refine ⟨Nat.lt_succ_self _, fun s hs => ?_⟩
      rw [Function.update_self, Option.some.injEq] at hs
      rw [← hs, hj]
      rfl
    · obtain ⟨hlt, hid⟩ := h.entry j r hr
      refine ⟨Nat.lt_succ_of_lt hlt, fun s hs => hid s ?_⟩
      rwa [Function.update_of_ne hlt.ne] at hs
  case unique =>
    intro r r' s s' hs hs' hid
    rcases hfresh.stream_cases hs with ⟨rfl, rfl⟩ | ⟨-, hs, hne⟩ <;>
      rcases hfresh.stream_cases hs' with ⟨rfl, rfl⟩ | ⟨-, hs', hne'⟩
    · rfl
    · exact absurd hid.symm hne'
    · exact absurd hid hne
    · exact h.unique r r' s s' hs hs' hid
  case reap =>
    intro j hj
    obtain ⟨r, s, hs, hrest⟩ := h.reap j hj
    exact ⟨r, s, h.stream_of_created hs, hrest⟩
  case sentOpen =>
    intro j ho
    rcases hann.openIn_sent ho with ho | ⟨rfl, hown⟩
    · exact h.sentOpen j ho
    · cases hann with
      | own k hk hi => exact ⟨k, hk, hi⟩
      | foreign hi => exact absurd hown hi
  case sentBy =>
    intro f hf j hj
    rcases List.mem_append.mp hf with hf | hf
    · obtain ⟨r, s, hs, hid⟩ := h.sentBy f hf j hj
      exact ⟨r, s, h.stream_of_created hs, hid⟩
    · obtain rfl := hout f (Option.mem_toList.mp hf)
      exact ⟨e.created, .new i, Function.update_self _ _ _, Option.some.inj hj⟩
  case arrivedOpen =>
    rintro j ⟨q, hm⟩
    rcases List.mem_append.mp hm with hold | hnew
    · obtain ⟨hforeign, r, s, hs, hid⟩ := h.arrivedOpen j ⟨q, hold⟩
      exact ⟨hforeign, r, s, h.stream_of_created hs, hid⟩
    · clear hm
      cases hann with
      | own k hk hi => cases hnew
      | foreign hi =>
        simp only [Option.toList_some, List.mem_singleton, MuxFrame.openStream.injEq] at hnew
        obtain ⟨rfl, -⟩ := hnew
        exact ⟨hi, e.created, .new j, Function.update_self _ _ _, rfl⟩
  case own =>
    intro r s hs hown
    rcases hfresh.stream_cases hs with ⟨rfl, rfl⟩ | ⟨-, hs, -⟩
    · cases hann with
      | own k hk hi => exact ⟨request, by simp [VirtualStream.new]⟩
      | foreign hi => exact absurd hown hi
    · exact (h.own r s hs hown).append _
  case foreign =>
    intro r s hs hforeign
    rcases hfresh.stream_cases hs with ⟨rfl, rfl⟩ | ⟨-, hs, -⟩
    · cases hann with
      | own k hk hi => exact absurd (hi ▸ own_idAt first k) hforeign
      | foreign hi => exact ⟨request, by simp [VirtualStream.new]⟩
    · exact (h.foreign r s hs hforeign).append _
  case order =>
    cases hann with
    | own k hk hi =>
      apply order_append h.order
      intro j hj
      obtain rfl := Option.some.inj hj
      constructor
      · exact fun _ => hfresh.sent
      · intro ho
        cases ho
    | foreign hi => simpa using h.order
  case heard =>
    intro f hf j hj hown
    rcases List.mem_append.mp hf with hf | hnew
    · exact (h.heard f hf j hj hown).append _
    · obtain rfl := hheard f (Option.mem_toList.mp hnew)
      obtain rfl := Option.some.inj hj
      cases hann with
      | own k hk hi => cases Option.mem_toList.mp hnew
      | foreign hi => exact absurd hown hi
  case serves =>
    intro r s hs
    rcases hfresh.stream_cases hs with ⟨rfl, rfl⟩ | ⟨-, hs, hne⟩
    · exact hfresh.serves_new hout hheard (Table.get_insert_self _ _ _) rfl rfl
    · have hother : ∀ o : Option MuxFrame, (∀ f ∈ o, f = .openStream i request) →
          ∀ f ∈ o, f.streamId ≠ some s.streamId := by
        intro o ho f hf he
        rw [ho f hf, MuxFrame.streamId, Option.some.injEq] at he
        exact hne he.symm
      exact (h.serves r s hs).of_other out heard (hother out hout) (hother heard hheard)
        (Table.get_insert_of_ne hne) rfl rfl fun hw => hw

theorem Sound.openFinish (h : e.Sound first) (hi : (i, request) ∈ e.opening) :
    (e.openFinish i request).Sound first := by
  obtain ⟨⟨k, hk, hid⟩, -⟩ := h.opening _ hi
  obtain ⟨-, hfresh⟩ := h.fresh_opening hi
  have hann : Announces first e i request (some (.openStream i request)) none := .own k hk hid
  have hinsert := h.insert hfresh hann (h.opening_erase hi) List.erase_sublist
  cases hw : e.writerOpen with
  | true =>
    have he : e.openFinish i request = { e with
        streams := e.streams.insert i e.created
        stream := Function.update e.stream e.created (some (.new i))
        created := e.created + 1
        opening := e.opening.erase (i, request)
        sent := e.sent ++ (some (MuxFrame.openStream i request)).toList
        arrived := e.arrived ++ (none : Option MuxFrame).toList } := by
      simp [Endpoint.openFinish, send, setStream, hw]
    rw [he]
    exact hinsert
  | false =>
    have he : e.openFinish i request = { e with
        streams := e.streams.insert i e.created
        created := e.created + 1
        opening := e.opening.erase (i, request) } := by
      simp [Endpoint.openFinish, hw]
    rw [he]
    constructor
    case next => exact h.next
    case opening =>
      intro p hp
      exact h.opening p (h.opening_erase hi p hp).1
    case openingOnce => exact hinsert.openingOnce
    case ref =>
      intro r s hs
      exact Nat.lt_succ_of_lt (h.ref r s hs)
    case entry =>
      intro j r hr
      refine ⟨(hinsert.entry j r hr).1, fun s hs => ?_⟩
      have hlt := h.ref r s hs
      dsimp only at hr
      rw [Table.get_insert] at hr
      split_ifs at hr
      · exact absurd (Option.some.inj hr) hlt.ne'
      · exact (h.entry j r hr).2 s hs
    case unique => exact h.unique
    case reap => exact h.reap
    case sentOpen => exact h.sentOpen
    case sentBy => exact h.sentBy
    case arrivedOpen => exact h.arrivedOpen
    case own => exact h.own
    case foreign => exact h.foreign
    case order => exact h.order
    case heard => exact h.heard
    case serves =>
      intro r s hs
      exact (h.serves r s hs).of_other none none (by simp) (by simp)
        (Table.get_insert_of_ne (hfresh.stream r s hs)) (List.append_nil _).symm
        (List.append_nil _).symm fun hw => hw

/-! ## Frames that arrive -/

variable {frame : MuxFrame}

theorem Sound.hear (h : e.Sound first) (ha : Accepts first e frame) (hno : frame.isOpen = false)
    {streams : Table UInt32 StreamRef} {stream : StreamRef → Option VirtualStream}
    (hentry : ∀ j r, streams.get j = some r → e.streams.get j = some r)
    (hforth : ∀ r s, e.stream r = some s →
      ∃ s', stream r = some s' ∧ s'.streamId = s.streamId ∧ s'.dropped = s.dropped)
    (hback : ∀ r s', stream r = some s' → ∃ s, e.stream r = some s ∧ s.streamId = s'.streamId)
    (hserves : ∀ r s', stream r = some s' →
      Serves { e with arrived := e.arrived ++ [frame], streams := streams, stream := stream } r
        s') :
    Sound first { e with arrived := e.arrived ++ [frame], streams := streams, stream :=
      stream } := by
  have hhas : ∀ j, e.HasStream j →
      HasStream { e with arrived := e.arrived ++ [frame], streams := streams, stream := stream }
        j := by
    rintro j ⟨r, s, hs, rfl⟩
    obtain ⟨s', hs', hid, -⟩ := hforth r s hs
    exact ⟨r, s', hs', hid⟩
  constructor
  case next => exact h.next
  case opening => exact h.opening
  case openingOnce => exact h.openingOnce
  case ref =>
    intro r s' hs'
    obtain ⟨s, hs, -⟩ := hback r s' hs'
    exact h.ref r s hs
  case entry =>
    intro j r hr
    obtain ⟨hlt, hid⟩ := h.entry j r (hentry j r hr)
    refine ⟨hlt, fun s' hs' => ?_⟩
    obtain ⟨s, hs, he⟩ := hback r s' hs'
    rw [← he]
    exact hid s hs
  case unique =>
    intro r₁ r₂ s₁ s₂ h₁ h₂ heq
    obtain ⟨t₁, g₁, e₁⟩ := hback r₁ s₁ h₁
    obtain ⟨t₂, g₂, e₂⟩ := hback r₂ s₂ h₂
    exact h.unique r₁ r₂ t₁ t₂ g₁ g₂ (by rw [e₁, e₂, heq])
  case reap =>
    intro j hj
    obtain ⟨r, s, hs, hid, hd⟩ := h.reap j hj
    obtain ⟨s', hs', hid', hd'⟩ := hforth r s hs
    exact ⟨r, s', hs', hid'.trans hid, hd'.trans hd⟩
  case sentOpen => exact h.sentOpen
  case sentBy =>
    intro f hf j hj
    exact hhas j (h.sentBy f hf j hj)
  case arrivedOpen =>
    intro j ho
    have hopen : OpenIn j e.arrived := by
      apply ho.of_append
      intro f hf hopen
      rw [List.mem_singleton.mp hf, hno] at hopen
      cases hopen
    obtain ⟨hforeign, hstream⟩ := h.arrivedOpen j hopen
    exact ⟨hforeign, hhas j hstream⟩
  case own =>
    intro r s' hs' hown
    obtain ⟨s, hs, he⟩ := hback r s' hs'
    rw [← he] at hown ⊢
    exact h.own r s hs hown
  case foreign =>
    intro r s' hs' hforeign
    obtain ⟨s, hs, he⟩ := hback r s' hs'
    rw [← he] at hforeign ⊢
    exact (h.foreign r s hs hforeign).append _
  case order => exact h.order
  case heard =>
    intro f hf j hj hown
    rcases List.mem_append.mp hf with hf | hf
    · exact h.heard f hf j hj hown
    · obtain rfl := List.mem_singleton.mp hf
      exact ha.answers j hj hown
  case serves => exact hserves

theorem Sound.hear_same (h : e.Sound first) (ha : Accepts first e frame)
    (hno : frame.isOpen = false)
    {streams : Table UInt32 StreamRef}
    (hentry : ∀ j r, streams.get j = some r → e.streams.get j = some r)
    (hserves : ∀ r s, e.stream r = some s → frame.streamId = some s.streamId →
      Serves { e with arrived := e.arrived ++ [frame], streams := streams } r s)
    (hother : ∀ j, frame.streamId ≠ some j → streams.get j = e.streams.get j) :
    Sound first { e with arrived := e.arrived ++ [frame], streams := streams } := by
  apply h.hear ha hno hentry
  · intro r s hs
    exact ⟨s, hs, rfl, rfl⟩
  · intro r s hs
    exact ⟨s, hs, rfl⟩
  · intro r s hs
    by_cases hid : frame.streamId = some s.streamId
    · exact hserves r s hs hid
    · exact (h.serves r s hs).of_other none (some frame) (by simp) (by simpa using hid)
        (hother s.streamId hid) rfl (List.append_nil _).symm fun hw => hw

theorem Serves.hear {r : StreamRef} {s : VirtualStream} (h : e.Serves r s)
    {streams : Table UInt32 StreamRef} {stream : StreamRef → Option VirtualStream}
    {inbound : List (List UInt8)}
    (hentry : s.dropped = false → streams.get s.streamId =
      if .close s.streamId ∈ e.arrived ++ [frame] then none else some r)
    (hcontent : s.dropped = false → s.handed ++ (s.readBuffer ++ inbound.flatten) =
      carried s.streamId (e.arrived ++ [frame])) :
    Serves { e with arrived := e.arrived ++ [frame], streams := streams, stream := stream } r
      { s with inbound := inbound } :=
  ⟨hentry, hcontent, h.handed.trans (carried_mono (List.prefix_append _ _)), h.written, h.accepted,
    h.closeOnce, h.unclosed, h.closed⟩

theorem Sound.receive_open (h : e.Sound first) (ha : Accepts first e (.openStream i request)) :
    (e.receive (.openStream i request)).Sound first := by
  obtain ⟨hforeign, hfresh⟩ := h.fresh_arriving ha
  have hann : Announces first e i request none (some (.openStream i request)) := .foreign hforeign
  have hopening : ∀ p ∈ e.opening, p ∈ e.opening ∧ p.1 ≠ i := by
    intro p hp
    obtain ⟨⟨k, -, hk⟩, -⟩ := h.opening p hp
    refine ⟨hp, ?_⟩
    rintro rfl
    exact hforeign (hk ▸ own_idAt first k)
  have hinsert := h.insert hfresh hann hopening (List.Sublist.refl _)
  rw [Option.toList_none, List.append_nil] at hinsert
  exact hinsert

theorem Sound.receive_data (h : e.Sound first) {payload : List UInt8}
    (ha : Accepts first e (.data i payload)) : (e.receive (.data i payload)).Sound first := by
  cases hfound : (e.streams.get i).bind fun ref => (e.live ref).map fun s => (ref, s) with
  | none =>
    rw [receive, hfound]
    apply h.hear_same ha rfl (fun j r hr => hr)
    · intro r s hs hid
      obtain rfl : i = s.streamId := Option.some.inj hid
      have hserves := h.serves r s hs
      have hclosed : s.dropped = false → .close s.streamId ∈ e.arrived := by
        intro hd
        by_contra hn
        have hget := hserves.entry hd
        rw [if_neg hn] at hget
        rw [hget, Option.bind_some, live_eq_some.mpr ⟨hs, hd⟩] at hfound
        cases hfound
      apply hserves.hear
      · intro hd
        rw [hserves.entry hd, if_pos (hclosed hd), if_pos (List.mem_append_left _ (hclosed hd))]
      · intro hd
        rw [carried_append, if_pos (hclosed hd), List.append_nil]
        exact hserves.content hd
    · intro j _
      rfl
  | some found =>
    obtain ⟨r, s⟩ := found
    obtain ⟨r', hget, hlive⟩ := Option.bind_eq_some_iff.mp hfound
    obtain ⟨s', hs, he⟩ := Option.map_eq_some_iff.mp hlive
    obtain ⟨rfl, rfl⟩ := Prod.mk.inj he
    obtain ⟨hs, hd⟩ := live_eq_some.mp hs
    obtain rfl : s'.streamId = i := (h.entry i r' hget).2 s' hs
    have hserves := h.serves r' s' hs
    have hopen : .close s'.streamId ∉ e.arrived := by
      intro hm
      rw [hserves.entry hd, if_pos hm] at hget
      cases hget
    rw [receive, hfound]
    apply h.hear ha rfl (fun j r hr => hr)
    · intro r s hs'
      by_cases hr : r = r'
      · subst hr
        obtain rfl : s' = s := Option.some.inj (hs.symm.trans hs')
        exact ⟨_, Function.update_self _ _ _, rfl, rfl⟩
      · exact ⟨s, (Function.update_of_ne hr _ _).trans hs', rfl, rfl⟩
    · intro r s hs'
      refine exists_of_update_some hs ?_ hs'
      rfl
    · intro r s hs'
      rcases update_some_cases hs' with ⟨rfl, rfl⟩ | ⟨hr, hs'⟩
      · apply hserves.hear
        · intro _
          rw [hserves.entry hd, if_neg hopen, if_neg (by simpa using hopen)]
        · intro _
          rw [carried_append, if_neg hopen, ← hserves.content hd]
          simp [VirtualStream.waiting, carried]
      · have hother : s'.streamId ≠ s.streamId := fun heq => hr (h.unique r r' s s' hs' hs heq.symm)
        exact (h.serves r s hs').of_other none (some (.data s'.streamId payload)) (by simp)
          (by simpa [MuxFrame.streamId] using hother) rfl rfl (List.append_nil _).symm fun hw => hw

theorem Sound.receive_close (h : e.Sound first) (ha : Accepts first e (.close i)) :
    (e.receive (.close i)).Sound first := by
  apply h.hear_same ha rfl
  · intro j r hr
    rw [Table.get_remove] at hr
    split_ifs at hr
    exact hr
  · intro r s hs hid
    obtain rfl : i = s.streamId := Option.some.inj hid
    have hserves := h.serves r s hs
    apply hserves.hear
    · intro _
      rw [Table.get_remove_self, if_pos (by simp)]
    · intro hd
      rw [carried_append]
      simpa [carried, VirtualStream.waiting] using hserves.content hd
  · intro j hj
    exact Table.get_remove_of_ne fun he => hj (congrArg some he.symm)

theorem Sound.receive (h : e.Sound first) (ha : Accepts first e frame) :
    (e.receive frame).Sound first := by
  cases frame with
  | openStream i request => exact h.receive_open ha
  | data i payload => exact h.receive_data ha
  | close i => exact h.receive_close ha
  | control message =>
    apply h.hear_same ha rfl (fun j r hr => hr)
    · intro r s hs hid
      cases hid
    · intro j _
      rfl

theorem Sound.step (h : e.Sound first) {event : StreamEvent} {e' : Endpoint}
    (hstep : e.step event = some e')
    (hbound : ∀ request, event = .openBegin request → e.opened < 2 ^ 31)
    (haccepts : ∀ frame, event = .receive frame → Accepts first e frame) : e'.Sound first := by
  cases event with
  | openBegin request =>
    obtain rfl := Option.some.inj hstep
    exact h.openBegin (hbound request rfl) request
  | openFinish i request =>
    rw [Endpoint.step, Option.ite_none_right_eq_some] at hstep
    obtain ⟨hi, he⟩ := hstep
    obtain rfl := Option.some.inj he
    exact h.openFinish hi
  | sendControl message =>
    obtain rfl := Option.some.inj hstep
    exact h.sendControl message
  | pollWrite r data =>
    obtain ⟨s, hs, rfl⟩ := Option.map_eq_some_iff.mp hstep
    exact h.pollWrite hs data
  | pollShutdown r =>
    obtain ⟨s, hs, rfl⟩ := Option.map_eq_some_iff.mp hstep
    exact h.closeRemote hs
  | drop r =>
    obtain ⟨s, hs, rfl⟩ := Option.map_eq_some_iff.mp hstep
    exact h.dropStream hs
  | reap i =>
    rw [Endpoint.step, Option.ite_none_right_eq_some] at hstep
    obtain ⟨hi, he⟩ := hstep
    obtain rfl := Option.some.inj he
    exact h.reapStream hi
  | pollRead r cx buf =>
    obtain ⟨s, hs, rfl⟩ := Option.map_eq_some_iff.mp hstep
    exact h.pollRead hs cx buf
  | receive frame =>
    obtain rfl := Option.some.inj hstep
    exact h.receive (haccepts frame rfl)
  | writerStop =>
    obtain rfl := Option.some.inj hstep
    exact h.writerStop

end Endpoint

end NodeAccess.Mux
