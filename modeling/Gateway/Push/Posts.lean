import Gateway.Push.Registry

/-!
# What a push posts

A push posts to the devices it has read, one by one, while other calls change the rows, and returns
how many of its messages the messaging service has accepted. In every run each push posts at most
once to a device, and to devices only that were registered to its user in one state of the run
(`pushes_addressed`); and it returns once, with the number of its messages that were accepted,
unless it has caught an exception (`results_accepted`).
-/

namespace Gateway

open Foundations

namespace Registry

variable {settings : PushSettings} {s s' : Registry} {e : DeviceEvent}

/-! ## What a push posts -/

/-- The messages of a push. -/
def posted (s : Registry) (p : PushId) : List Message := s.messages.filter fun m => m.push = p

/-- How many of them the messaging service has accepted. -/
def accepted (s : Registry) (p : PushId) : ℕ :=
  (s.posted p).countP fun m => m.outcome = .sent

/-- The devices that a push has not sent to. -/
def todoOf (s : Registry) (p : PushId) : List DeviceToken := (s.pushes p).elim [] Push.todo

theorem posted_congr (h : s'.messages = s.messages) (p : PushId) : s'.posted p = s.posted p := by
  rw [posted, h, posted]

theorem accepted_congr (h : s'.messages = s.messages) (p : PushId) :
    s'.accepted p = s.accepted p := by
  rw [accepted, posted_congr h, accepted]

section SendTo

variable {p : PushId} {push : Push} {d : DeviceToken} {rest : List DeviceToken}
  {accessToken : Option String} {status : Option ℕ}

theorem posted_sendTo_self : (s.sendTo settings p push d rest accessToken status).posted p =
    if settings.posts accessToken then
      s.posted p ++ [⟨p, push.userId, d.fcmToken, push.notice,
        sendToToken settings accessToken status⟩]
    else s.posted p := by
  simp only [posted, sendTo]
  split_ifs
  · rw [List.filter_append, List.filter_singleton, decide_eq_true rfl]
    rfl
  · rfl

theorem posted_sendTo_of_ne {q : PushId} (hq : q ≠ p) :
    (s.sendTo settings p push d rest accessToken status).posted q = s.posted q := by
  simp only [posted, sendTo]
  split_ifs
  · rw [List.filter_append, List.filter_singleton, decide_eq_false (Ne.symm hq)]
    exact List.append_nil _
  · rfl

/-- A message that is not posted is not accepted. -/
theorem accepted_sendTo_self : (s.sendTo settings p push d rest accessToken status).accepted p =
    if sendToToken settings accessToken status = .sent then s.accepted p + 1
    else s.accepted p := by
  rw [accepted, posted_sendTo_self]
  by_cases hposts : settings.posts accessToken
  · rw [if_pos hposts, List.countP_append, List.countP_singleton]
    by_cases hsent : sendToToken settings accessToken status = .sent
    · rw [if_pos hsent, hsent, decide_eq_true rfl]
      rfl
    · rw [if_neg hsent, decide_eq_false hsent]
      rfl
  · have hfailed : sendToToken settings accessToken status = .failed := by
      simp [sendToToken, hposts]
    rw [if_neg hposts, hfailed]
    rfl

end SendTo

/-- What the pushes have counted, and returned unless an exception was caught. -/
structure Accounted (es : List DeviceEvent) (s : Registry) : Prop where
  fresh : ∀ m ∈ s.messages, m.push ∈ s.started
  running : ∀ p push, s.pushes p = some push → p ∈ s.started ∧ push.sent = s.accepted p
  returned : ∀ x ∈ s.results, x.1 ∈ s.started ∧ s.pushes x.1 = none ∧
    (x.2 = s.accepted x.1 ∨ .caught x.1 ∈ es)
  once : (s.results.map Prod.fst).Nodup

namespace Accounted

variable {es : List DeviceEvent}

theorem posted_eq_nil (h : s.Accounted es) {p : PushId} (hp : p ∉ s.started) :
    s.posted p = [] := by
  refine List.filter_eq_nil_iff.mpr fun m hm => ?_
  rw [decide_eq_true_eq]
  rintro rfl
  exact hp (h.fresh m hm)

/-- Another push returns. -/
theorem once_append (h : s.Accounted es) {p : PushId} {n : ℕ} (hp : ∀ x ∈ s.results, x.1 ≠ p) :
    ((s.results ++ [(p, n)]).map Prod.fst).Nodup := by
  rw [List.map_append, List.map_singleton, List.nodup_append]
  refine ⟨h.once, List.nodup_singleton _, ?_⟩
  rintro a ha b hb rfl
  obtain ⟨x, hx, rfl⟩ := List.mem_map.mp ha
  exact hp x hx (List.mem_singleton.mp hb)

theorem pushes_eq_none (h : s.Accounted es) {p : PushId} (hp : p ∉ s.started) :
    s.pushes p = none := by
  cases hpush : s.pushes p with
  | none => rfl
  | some push => exact absurd (h.running p push hpush).1 hp

/-- The push that an event moves is not one that has returned. -/
theorem step (h : s.Accounted es) (he : e ∈ es) (hs : s.step settings e = some s') :
    s'.Accounted es := by
  cases PushMove.of_step hs with
  | same hpushes hstarted hmessages hresults =>
    refine ⟨?_, ?_, ?_, ?_⟩
    · rw [hmessages, hstarted]
      exact h.fresh
    · intro q push hq
      rw [hstarted, accepted_congr hmessages]
      exact h.running q push (hpushes ▸ hq)
    · intro x hx
      rw [hstarted, hpushes, accepted_congr hmessages]
      exact h.returned x (hresults ▸ hx)
    · rw [hresults]
      exact h.once
  | @none _ _ p hp hpushes hstarted hmessages hresults =>
    refine ⟨?_, ?_, ?_, ?_⟩
    · intro m hm
      rw [hstarted]
      exact List.mem_cons_of_mem p (h.fresh m (hmessages ▸ hm))
    · intro q push hq
      rw [hstarted, accepted_congr hmessages]
      obtain ⟨hq₁, hq₂⟩ := h.running q push (hpushes ▸ hq)
      exact ⟨List.mem_cons_of_mem p hq₁, hq₂⟩
    · intro x hx
      rw [hstarted, hpushes, accepted_congr hmessages]
      rcases List.mem_append.mp (hresults ▸ hx) with hx | hx
      · obtain ⟨hx₁, hx₂⟩ := h.returned x hx
        exact ⟨List.mem_cons_of_mem p hx₁, hx₂⟩
      · obtain rfl := List.mem_singleton.mp hx
        refine ⟨List.mem_cons_self, h.pushes_eq_none hp, .inl ?_⟩
        rw [accepted, h.posted_eq_nil hp, List.countP_nil]
    · rw [hresults]
      exact h.once_append fun x hx hxp => hp (hxp ▸ (h.returned x hx).1)
  | @read _ _ p userId notice tokens hp htokens hpushes hstarted hmessages hresults =>
    refine ⟨?_, ?_, ?_, ?_⟩
    · intro m hm
      rw [hstarted]
      exact List.mem_cons_of_mem p (h.fresh m (hmessages ▸ hm))
    · intro q push hq
      rw [hstarted, accepted_congr hmessages]
      rw [hpushes] at hq
      rcases eq_some_of_update hq with ⟨rfl, ⟨⟩⟩ | ⟨-, hq⟩
      · refine ⟨List.mem_cons_self, ?_⟩
        rw [accepted, h.posted_eq_nil hp, List.countP_nil]
      · obtain ⟨hq₁, hq₂⟩ := h.running q push hq
        exact ⟨List.mem_cons_of_mem p hq₁, hq₂⟩
    · intro x hx
      rw [hstarted, hpushes, accepted_congr hmessages]
      obtain ⟨hx₁, hx₂⟩ := h.returned x (hresults ▸ hx)
      rw [Function.update_of_ne fun hxp : x.1 = p => hp (hxp ▸ hx₁)]
      exact ⟨List.mem_cons_of_mem p hx₁, hx₂⟩
    · rw [hresults]
      exact h.once
  | @send _ p accessToken status push d rest hp htodo hs' =>
    subst hs'
    obtain ⟨hstarted, hsent⟩ := h.running p push hp
    refine ⟨?_, ?_, ?_, h.once⟩
    · intro m hm
      simp only [sendTo] at hm
      split_ifs at hm
      · rcases List.mem_append.mp hm with hm | hm
        · exact h.fresh m hm
        · obtain rfl := List.mem_singleton.mp hm
          exact hstarted
      · exact h.fresh m hm
    · intro q push' hq
      rcases eq_some_of_update hq with ⟨rfl, ⟨⟩⟩ | ⟨hne, hq⟩
      · refine ⟨hstarted, ?_⟩
        rw [accepted_sendTo_self, ← hsent]
        rfl
      · rw [accepted, posted_sendTo_of_ne hne]
        exact h.running q push' hq
    · intro x hx
      obtain ⟨hx₁, hx₂, hx₃⟩ := h.returned x hx
      have hne : x.1 ≠ p := by
        intro hxp
        rw [hxp, hp] at hx₂
        cases hx₂
      refine ⟨hx₁, ?_, ?_⟩
      · rw [← hx₂]
        exact Function.update_of_ne hne _ _
      · rw [accepted, posted_sendTo_of_ne hne]
        exact hx₃
  | @ended _ _ p push n hp hn hpushes hstarted hmessages hresults =>
    obtain ⟨hp₁, hsent⟩ := h.running p push hp
    refine ⟨?_, ?_, ?_, ?_⟩
    · rw [hmessages, hstarted]
      exact h.fresh
    · intro q push' hq
      rw [hstarted, accepted_congr hmessages]
      rw [hpushes] at hq
      rcases eq_some_of_update hq with ⟨-, ⟨⟩⟩ | ⟨-, hq⟩
      exact h.running q push' hq
    · intro x hx
      rw [hstarted, hpushes, accepted_congr hmessages]
      rcases List.mem_append.mp (hresults ▸ hx) with hx | hx
      · obtain ⟨hx₁, hx₂, hx₃⟩ := h.returned x hx
        refine ⟨hx₁, ?_, hx₃⟩
        rw [Function.update_apply]
        split_ifs
        · rfl
        · exact hx₂
      · obtain rfl := List.mem_singleton.mp hx
        refine ⟨hp₁, Function.update_self _ _ _, ?_⟩
        rcases hn with rfl | ⟨-, rfl⟩
        · exact .inl hsent
        · exact .inr he
    · rw [hresults]
      refine h.once_append fun x hx hxp => ?_
      have hx₂ := (h.returned x hx).2.1
      rw [hxp, hp] at hx₂
      cases hx₂

end Accounted

/-! ## Whom a push is posted to -/

/-- The messages of a push to devices that were registered to its user in the state `t`, and the
devices that are left to send to, are of different devices. -/
structure ReadAt (t s : Registry) (p : PushId) (userId : UserId) (notice : Notice) : Prop where
  push : ∀ push, s.pushes p = some push → push.userId = userId ∧ push.notice = notice
  posted : ∀ m ∈ s.posted p, m.userId = userId ∧ m.notice = notice ∧ t.Registered m.fcmToken userId
  todo : ∀ d ∈ s.todoOf p, t.Registered d.fcmToken userId
  nodup : ((s.posted p).map Message.fcmToken ++ (s.todoOf p).map DeviceToken.fcmToken).Nodup

section ReadAt

variable {t : Registry} {p : PushId} {userId : UserId} {notice : Notice}

theorem ReadAt.congr (h : ReadAt t s p userId notice) (hpushes : s'.pushes p = s.pushes p)
    (hposted : s'.posted p = s.posted p) : ReadAt t s' p userId notice := by
  have htodo : s'.todoOf p = s.todoOf p := by rw [todoOf, hpushes, todoOf]
  refine ⟨?_, ?_, ?_, ?_⟩
  · rw [hpushes]
    exact h.push
  · rw [hposted]
    exact h.posted
  · rw [htodo]
    exact h.todo
  · rw [hposted, htodo]
    exact h.nodup

/-- A push that ends has nothing left to send to. -/
theorem ReadAt.ended (h : ReadAt t s p userId notice) (hpushes : s'.pushes p = none)
    (hposted : s'.posted p = s.posted p) : ReadAt t s' p userId notice := by
  have htodo : s'.todoOf p = [] := by rw [todoOf, hpushes, Option.elim_none]
  refine ⟨?_, ?_, ?_, ?_⟩
  · rw [hpushes]
    rintro push ⟨⟩
  · rw [hposted]
    exact h.posted
  · rw [htodo]
    rintro d ⟨⟩
  · rw [hposted, htodo, List.map_nil, List.append_nil]
    exact h.nodup.of_append_left

/-- It moves a device from those that are left to those that have been posted to, or drops it. -/
theorem ReadAt.send (h : ReadAt t s p userId notice) {push : Push} {d : DeviceToken}
    {rest : List DeviceToken} (hp : s.pushes p = some push) (htodo : push.todo = d :: rest)
    (accessToken : Option String) (status : Option ℕ) :
    ReadAt t (s.sendTo settings p push d rest accessToken status) p userId notice := by
  have hbefore : s.todoOf p = d :: rest := by rw [todoOf, hp, Option.elim_some, htodo]
  have hafter : (s.sendTo settings p push d rest accessToken status).todoOf p = rest := by
    simp only [todoOf, sendTo, Function.update_self, Option.elim_some, Push.after]
  obtain ⟨hposted, hleft⟩ := And.intro h.todo h.nodup
  rw [hbefore] at hposted hleft
  obtain ⟨huser, hnotice⟩ := h.push push hp
  refine ⟨?_, ?_, ?_, ?_⟩
  · intro push' hp'
    rcases eq_some_of_update hp' with ⟨-, ⟨⟩⟩ | ⟨hne, -⟩
    · exact ⟨huser, hnotice⟩
    · exact absurd rfl hne
  · intro m hm
    rw [posted_sendTo_self] at hm
    split_ifs at hm
    · rcases List.mem_append.mp hm with hm | hm
      · exact h.posted m hm
      · obtain rfl := List.mem_singleton.mp hm
        exact ⟨huser, hnotice, hposted d List.mem_cons_self⟩
    · exact h.posted m hm
  · rw [hafter]
    exact fun d' hd' => hposted d' (List.mem_cons_of_mem d hd')
  · rw [hafter, posted_sendTo_self]
    split_ifs
    · rw [List.map_append, List.map_singleton, List.append_assoc, List.singleton_append]
      exact hleft
    · exact hleft.sublist ((List.sublist_cons_self _ _).append_left _)

/-- A push that has just read its devices. -/
theorem readAt_read (hposted : s'.posted p = []) {tokens : List DeviceToken}
    (htokens : tokens.Perm (s.devices.rows.filter fun row => row.userId = userId))
    (hpushes : s'.pushes p = some ⟨userId, notice, tokens, 0, []⟩) :
    ReadAt s s' p userId notice := by
  have htodo : s'.todoOf p = tokens := by rw [todoOf, hpushes, Option.elim_some]
  refine ⟨?_, ?_, ?_, ?_⟩
  · rw [hpushes]
    rintro push ⟨⟩
    exact ⟨rfl, rfl⟩
  · rw [hposted]
    rintro m ⟨⟩
  · rw [htodo]
    intro d hd
    have hrow := List.mem_filter.mp (htokens.mem_iff.mp hd)
    exact ⟨d, hrow.1, rfl, of_decide_eq_true hrow.2⟩
  · rw [hposted, htodo, List.map_nil, List.nil_append, (htokens.map _).nodup_iff]
    exact s.devices.unique.sublist (List.filter_sublist.map _)

end ReadAt

/-- Every push has read its devices in a state that the run has come to. -/
theorem readAt_step {es : List DeviceEvent} (h : s.Accounted es)
    (hs : s.step settings e = some s') {Passed : Registry → Prop} (hpassed : Passed s)
    (hread : ∀ p, ∃ t userId notice, Passed t ∧ ReadAt t s p userId notice) (p : PushId) :
    ∃ t userId notice, Passed t ∧ ReadAt t s' p userId notice := by
  obtain ⟨t, userId, notice, ht, hat⟩ := hread p
  cases PushMove.of_step hs with
  | same hpushes _ hmessages =>
    exact ⟨t, userId, notice, ht, hat.congr (by rw [hpushes]) (posted_congr hmessages p)⟩
  | none _ hpushes _ hmessages =>
    exact ⟨t, userId, notice, ht, hat.congr (by rw [hpushes]) (posted_congr hmessages p)⟩
  | @read _ _ q user said tokens hq htokens hpushes _ hmessages =>
    by_cases hpq : p = q
    · subst hpq
      refine ⟨s, user, said, hpassed, readAt_read ?_ htokens ?_⟩
      · rw [posted_congr hmessages, h.posted_eq_nil hq]
      · rw [hpushes, Function.update_self]
    · refine ⟨t, userId, notice, ht, hat.congr ?_ (posted_congr hmessages p)⟩
      rw [hpushes, Function.update_of_ne hpq]
  | @send _ q accessToken status push d rest hq htodo hs' =>
    subst hs'
    by_cases hpq : p = q
    · subst hpq
      exact ⟨t, userId, notice, ht, hat.send hq htodo accessToken status⟩
    · refine ⟨t, userId, notice, ht, hat.congr ?_ (posted_sendTo_of_ne hpq)⟩
      exact Function.update_of_ne hpq _ _
  | @ended _ _ q push n hq _ hpushes _ hmessages =>
    by_cases hpq : p = q
    · subst hpq
      refine ⟨t, userId, notice, ht, hat.ended ?_ (posted_congr hmessages p)⟩
      rw [hpushes, Function.update_self]
    · refine ⟨t, userId, notice, ht, hat.congr ?_ (posted_congr hmessages p)⟩
      rw [hpushes, Function.update_of_ne hpq]

/-! ## Over a run -/

variable {s₀ : Registry} {es : List DeviceEvent}

theorem Quiet.accounted (h : s₀.Quiet) : s₀.Accounted es where
  fresh := by
    rw [h.messages]
    rintro m ⟨⟩
  running := by
    intro p push hp
    rw [h.pushes p] at hp
    cases hp
  returned := by
    rw [h.results]
    rintro x ⟨⟩
  once := by
    rw [h.results]
    exact List.nodup_nil

theorem Quiet.readAt (h : s₀.Quiet) (p : PushId) : ReadAt s₀ s₀ p 0 ⟨"", "", []⟩ := by
  have hposted : s₀.posted p = [] := by rw [posted, h.messages, List.filter_nil]
  have htodo : s₀.todoOf p = [] := by rw [todoOf, h.pushes p, Option.elim_none]
  refine ⟨?_, ?_, ?_, ?_⟩
  · rw [h.pushes p]
    rintro push ⟨⟩
  · rw [hposted]
    rintro m ⟨⟩
  · rw [htodo]
    rintro d ⟨⟩
  · rw [hposted, htodo]
    exact List.nodup_nil

theorem run_mem (hrun : exec (step settings) s₀ es = some s) :
    Run (step settings) (fun _ e => e ∈ es) s₀ es s :=
  .of_exec_of_forall (fun _ he _ => he) hrun

theorem accounted_of_run (hquiet : s₀.Quiet) (hrun : exec (step settings) s₀ es = some s) :
    s.Accounted es :=
  (run_mem hrun).invariant (fun _ _ _ h he hs => h.step he hs) hquiet.accounted

/-- **A push is posted to its user's devices**: in every run from a quiet registry, whatever calls
interleave, a push posts at most one message to each token, and there is a state that the run has
come to in which all the tokens it posts to were registered to the user that it is for. -/
theorem pushes_addressed (hquiet : s₀.Quiet) (hrun : exec (step settings) s₀ es = some s)
    (p : PushId) :
    ((s.posted p).map Message.fcmToken).Nodup ∧
    ∃ es₁ t userId notice, es₁ <+: es ∧ exec (step settings) s₀ es₁ = some t ∧
      ∀ m ∈ s.posted p, m.userId = userId ∧ m.notice = notice ∧ t.Registered m.fcmToken userId := by
  have hreached := (run_mem hrun).reached (exec_nil s₀)
  have hread : s.Accounted es ∧ ∀ p, ∃ t userId notice,
      (∃ es₁, es₁ <+: [] ++ es ∧ exec (step settings) s₀ es₁ = some t) ∧
        ReadAt t s p userId notice := by
    apply hreached.invariant
    · rintro u e u' ⟨hu, hread⟩ ⟨he, hpassed⟩ hs
      exact ⟨hu.step he hs, readAt_step hu hs hpassed hread⟩
    · exact ⟨hquiet.accounted, fun p =>
        ⟨s₀, 0, ⟨"", "", []⟩, ⟨[], List.nil_prefix, rfl⟩, hquiet.readAt p⟩⟩
  obtain ⟨t, userId, notice, ⟨es₁, hprefix, ht⟩, hat⟩ := hread.2 p
  exact ⟨hat.nodup.of_append_left, es₁, t, userId, notice, hprefix, ht, hat.posted⟩

/-- The push of the sample is posted to both devices. -/
theorem pushes_addressed_sample : ∃ s, exec (step sampleSettings) sampleRegistry sampleRun = some s ∧
    (s.posted 0).map Message.fcmToken = ["tablet", "phone"] ∧
    ∃ es₁ t userId notice, es₁ <+: sampleRun ∧
      exec (step sampleSettings) sampleRegistry es₁ = some t ∧
      ∀ m ∈ s.posted 0, m.userId = userId ∧ m.notice = notice ∧
        t.Registered m.fcmToken userId := by
  have hrun : ((exec (step sampleSettings) sampleRegistry sampleRun).map fun s =>
      (s.posted 0).map Message.fcmToken) = some ["tablet", "phone"] := by
    decide +kernel
  obtain ⟨s, hs, hposted⟩ := Option.map_eq_some_iff.mp hrun
  exact ⟨s, hs, hposted, (pushes_addressed quiet_sample hs 0).2⟩

/-- **What a push returns**: in every such run each push returns at most once, and it returns the
number of its messages that the messaging service has accepted, unless it has caught an
exception. -/
theorem results_accepted (hquiet : s₀.Quiet) (hrun : exec (step settings) s₀ es = some s) :
    (s.results.map Prod.fst).Nodup ∧
      ∀ p n, (p, n) ∈ s.results → .caught p ∉ es → n = s.accepted p := by
  have h := accounted_of_run hquiet hrun
  refine ⟨h.once, fun p n hp hcaught => ?_⟩
  rcases (h.returned (p, n) hp).2.2 with hn | hn
  · exact hn
  · exact absurd hn hcaught

/-- The push of the sample returns one: its message to the phone was accepted. -/
theorem results_accepted_sample : ∃ s, exec (step sampleSettings) sampleRegistry sampleRun = some s ∧
    s.results = [(0, 1)] ∧ (s.posted 0).length = 2 ∧ 1 = s.accepted 0 := by
  have hrun : ((exec (step sampleSettings) sampleRegistry sampleRun).map fun s =>
      (s.results, (s.posted 0).length)) = some ([(0, 1)], 2) := by
    decide +kernel
  obtain ⟨s, hs, h⟩ := Option.map_eq_some_iff.mp hrun
  obtain ⟨hresults, hlength⟩ := Prod.mk.inj h
  refine ⟨s, hs, hresults, hlength, ?_⟩
  refine (results_accepted quiet_sample hs).2 0 1 (by rw [hresults]; exact List.mem_cons_self) ?_
  simp [sampleRun]

end Registry

end Gateway
