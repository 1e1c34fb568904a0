import Gateway.Foundations.Runs
import Gateway.Foundations.Tables
import Gateway.Merchant.Records

/-!
# Push notifications

The devices that users have registered, and the calls of the push service, which interleave: a
registration looks for a row with its token before it writes one, and a push posts to the devices it
has read one by one and then deletes those whose token the messaging service has called dead. In
between others register and delete the same rows.

Whatever interleaves, a device stays registered to its user until it is unregistered or registered
to another, or its token has been called dead (`registered_until_dead`). What carries this is that a
row never changes its token, so that the row with an identifier that a push has read is still of the
device it has read.
-/

namespace Gateway

open Foundations

/-! ## Devices -/

/-- The key of a device; a UUID in the table. -/
abbrev DeviceId := ℕ

/-- The key of a user; a UUID in the table. -/
abbrev UserId := ℕ

/-- A row of `device_tokens`. -/
structure DeviceToken where
  id : DeviceId
  userId : UserId
  fcmToken : String
  platform : String
  createdAt : Timestamp
  lastSeenAt : Timestamp
  deriving DecidableEq

instance : Keyed DeviceToken DeviceId := ⟨DeviceToken.id⟩

/-- The columns that `register_device` changes, written over the stored ones. -/
def DeviceToken.write (t : Tracked DeviceToken) (row : DeviceToken) : DeviceToken :=
  { row with
    userId := writeBack t.base.userId t.cur.userId row.userId
    platform := writeBack t.base.platform t.cur.platform row.platform
    lastSeenAt := writeBack t.base.lastSeenAt t.cur.lastSeenAt row.lastSeenAt }

/-- The table `device_tokens`, whose tokens are unique. -/
structure Devices where
  table : Table DeviceToken
  unique : (table.rows.map DeviceToken.fcmToken).Nodup

namespace Devices

/-- The rows of the table. -/
def rows (d : Devices) : List DeviceToken := d.table.rows

/-- Insert a device; `none` when its identifier or its token is taken. -/
def insert? (d : Devices) (row : DeviceToken) : Option Devices :=
  if h : row.fcmToken ∈ d.rows.map DeviceToken.fcmToken then none
  else
    match hinsert : d.table.insert? row with
    | none => none
    | some table => some
      { table
        unique := by
          rw [(Table.insert?_eq_some hinsert).2, List.map_append, List.map_singleton,
            List.nodup_append]
          refine ⟨d.unique, List.nodup_singleton _, ?_⟩
          rintro a ha b hb rfl
          obtain rfl := List.mem_singleton.mp hb
          exact h ha }

/-- Write a session's copy over the row it was read from. -/
def update (d : Devices) (t : Tracked DeviceToken) : Devices where
  table := d.table.update (fun row => if row.id = t.base.id then DeviceToken.write t row else row)
    fun row => by split_ifs <;> rfl
  unique := by
    have hsame : ((d.table.update (fun row => if row.id = t.base.id then DeviceToken.write t row
        else row) fun row => by split_ifs <;> rfl).rows.map DeviceToken.fcmToken) =
        d.table.rows.map DeviceToken.fcmToken := by
      simp only [Table.update, List.map_map]
      apply List.map_congr_left
      intro row _
      simp only [Function.comp_apply]
      split_ifs <;> rfl
    rw [hsame]
    exact d.unique

/-- Delete the rows that meet a condition. -/
def delete (d : Devices) (p : DeviceToken → Bool) : Devices where
  table :=
    { rows := d.table.rows.filter fun row => !p row
      nodup := d.table.nodup.sublist (List.filter_sublist.map _) }
  unique := d.unique.sublist (List.filter_sublist.map _)

theorem mem_delete {d : Devices} {p : DeviceToken → Bool} {row : DeviceToken} :
    row ∈ (d.delete p).rows ↔ row ∈ d.rows ∧ p row = false := by
  simp [rows, delete]

theorem mem_update {d : Devices} {t : Tracked DeviceToken} {row : DeviceToken} :
    row ∈ (d.update t).rows ↔ ∃ row₀ ∈ d.rows,
      row = if row₀.id = t.base.id then DeviceToken.write t row₀ else row₀ := by
  simp [rows, update, Table.update, eq_comm]

theorem mem_insert? {d d' : Devices} {new : DeviceToken} (h : d.insert? new = some d')
    {row : DeviceToken} : row ∈ d'.rows ↔ row ∈ d.rows ∨ row = new := by
  unfold insert? at h
  split_ifs at h
  split at h
  · cases h
  · rename_i table hinsert
    cases h
    rw [rows, (Table.insert?_eq_some hinsert).2]
    simp [rows]

end Devices

/-! ## Messages -/

/-- The settings of the messaging service. -/
structure PushSettings where
  firebaseServiceAccountJson : String
  firebaseProjectId : String

/-- What a message says; the values of the data as strings. -/
structure Notice where
  title : String
  body : String
  data : List (String × String)

/-- What `_send_to_token` returns. -/
inductive SendOutcome
  | sent
  /-- Prune it. -/
  | dead
  /-- Transient. -/
  | failed
  deriving DecidableEq

/-- The name of a call of `send_push_to_user`. -/
abbrev PushId := ℕ

/-- The name of a call of `register_device`. -/
abbrev EnrolmentId := ℕ

/-- A message that a push has posted, the user it is for, and what has become of it. -/
structure Message where
  push : PushId
  userId : UserId
  fcmToken : String
  notice : Notice
  outcome : SendOutcome

/-- Is a message posted at all? -/
def PushSettings.posts (settings : PushSettings) (accessToken : Option String) : Bool :=
  accessToken.isSome && settings.firebaseProjectId ≠ ""

/-- `_send_to_token`, from the access token and the status of the response, which is `none` for a
network error. -/
def sendToToken (settings : PushSettings) (accessToken : Option String) (status : Option ℕ) :
    SendOutcome :=
  if !settings.posts accessToken then .failed
  else
    match status with
    | none => .failed
    | some status =>
      if status = 200 then .sent else if status = 400 ∨ status = 404 then .dead else .failed

/-! ## Interleaved calls -/

/-- A running `send_push_to_user`, after it has read the devices. -/
structure Push where
  userId : UserId
  notice : Notice
  /-- The devices that have not been sent to. -/
  todo : List DeviceToken
  sent : ℕ
  deadIds : List DeviceId

/-- The push after it has sent to a device, and before the others. -/
def Push.after (push : Push) (device : DeviceToken) (rest : List DeviceToken)
    (outcome : SendOutcome) : Push :=
  { push with
    todo := rest
    sent := if outcome = .sent then push.sent + 1 else push.sent
    deadIds := if outcome = .dead then push.deadIds ++ [device.id] else push.deadIds }

/-- A running `register_device`, after it has looked for the token. -/
structure Enrolment where
  userId : UserId
  fcmToken : String
  platform : String
  existing : Option DeviceToken

/-- The table of devices with the calls under way, and what has been posted so far. -/
structure Registry where
  devices : Devices
  pushes : PushId → Option Push
  enrolments : EnrolmentId → Option Enrolment
  /-- The identifiers that have been given to rows. -/
  issued : List DeviceId
  /-- The pushes that have begun. -/
  started : List PushId
  messages : List Message
  /-- What they have returned. -/
  results : List (PushId × ℕ)

/-- The database accesses and requests of the calls. -/
inductive DeviceEvent
  /-- `register_device` looks for the token. -/
  | lookup (t : EnrolmentId) (userId : UserId) (fcmToken platform : String)
  /-- It writes the row and commits; `id` is the identifier of a new one. -/
  | register (t : EnrolmentId) (id : DeviceId) (now : Timestamp)
  /-- It ends by an exception. -/
  | abandon (t : EnrolmentId)
  | unregister (fcmToken : String)
  /-- `send_push_to_user` reads the devices. -/
  | read (p : PushId) (userId : UserId) (notice : Notice) (tokens : List DeviceToken)
  /-- It sends to the next one. -/
  | send (p : PushId) (accessToken : Option String) (status : Option ℕ)
  /-- It deletes the dead ones, and returns. -/
  | prune (p : PushId)
  /-- It has caught an exception, and returns 0. -/
  | caught (p : PushId)

namespace Registry

/-- The row that `register_device` would write over one that it has found. -/
def Enrolment.renewed (e : Enrolment) (row : DeviceToken) (now : Timestamp) : DeviceToken :=
  { row with userId := e.userId, platform := e.platform, lastSeenAt := now }

/-- The row that it would add. -/
def Enrolment.added (e : Enrolment) (id : DeviceId) (now : Timestamp) : DeviceToken where
  id
  userId := e.userId
  fcmToken := e.fcmToken
  platform := e.platform
  createdAt := now
  lastSeenAt := now

/-- The statement of `register_device` and its commit. Over a row that is gone, or with a token that
is taken, it raises. -/
def write (s : Registry) (e : Enrolment) (id : DeviceId) (now : Timestamp) : Registry :=
  match e.existing with
  | some row =>
    if row.id ∈ s.devices.rows.map DeviceToken.id then
      { s with devices := s.devices.update ((Tracked.load row).set (Enrolment.renewed e row now)) }
    else s
  | none =>
    match s.devices.insert? (Enrolment.added e id now) with
    | some devices => { s with devices, issued := id :: s.issued }
    | none => s

/-- The push has sent to a device. -/
def sendTo (s : Registry) (settings : PushSettings) (p : PushId) (push : Push)
    (device : DeviceToken) (rest : List DeviceToken) (accessToken : Option String)
    (status : Option ℕ) : Registry :=
  let outcome := sendToToken settings accessToken status
  { s with
    pushes := Function.update s.pushes p (some (push.after device rest outcome))
    messages :=
      if settings.posts accessToken then
        s.messages ++ [⟨p, push.userId, device.fcmToken, push.notice, outcome⟩]
      else s.messages }

/-- One event; `none` when it is not enabled. -/
def step (settings : PushSettings) (s : Registry) : DeviceEvent → Option Registry
  | .lookup t userId fcmToken platform =>
    if (s.enrolments t).isNone then
      let existing := s.devices.rows.find? fun row => row.fcmToken = fcmToken
      some { s with
        enrolments := Function.update s.enrolments t (some ⟨userId, fcmToken, platform, existing⟩) }
    else none
  | .register t id now =>
    (s.enrolments t).bind fun e =>
      -- identifiers are drawn at random, and none is drawn twice
      if id ∈ s.issued then none
      else some { s.write e id now with enrolments := Function.update s.enrolments t none }
  | .abandon t =>
    (s.enrolments t).map fun _ => { s with enrolments := Function.update s.enrolments t none }
  | .unregister fcmToken =>
    some { s with devices := s.devices.delete fun row => row.fcmToken = fcmToken }
  | .read p userId notice tokens =>
    if p ∉ s.started ∧
        tokens.isPerm (s.devices.rows.filter fun row => row.userId = userId) then
      -- without the settings, or without devices, it returns at once
      if settings.firebaseServiceAccountJson = "" ∨ settings.firebaseProjectId = "" ∨ tokens = []
      then some { s with started := p :: s.started, results := s.results ++ [(p, 0)] }
      else some { s with
        started := p :: s.started
        pushes := Function.update s.pushes p (some ⟨userId, notice, tokens, 0, []⟩) }
    else none
  | .send p accessToken status =>
    (s.pushes p).bind fun push =>
      match push.todo with
      | [] => none
      | device :: rest => some (s.sendTo settings p push device rest accessToken status)
  | .prune p =>
    (s.pushes p).bind fun push =>
      if push.todo = [] then
        some { s with
          devices := s.devices.delete fun row => row.id ∈ push.deadIds
          pushes := Function.update s.pushes p none
          results := s.results ++ [(p, push.sent)] }
      else none
  | .caught p =>
    (s.pushes p).map fun _ =>
      { s with
        pushes := Function.update s.pushes p none
        results := s.results ++ [(p, 0)] }

/-- No call has begun. -/
structure Quiet (s : Registry) : Prop where
  pushes : ∀ p, s.pushes p = none
  enrolments : ∀ t, s.enrolments t = none
  issued : ∀ row ∈ s.devices.rows, row.id ∈ s.issued
  started : s.started = []
  messages : s.messages = []
  results : s.results = []

/-- A device with this token is registered to the user. -/
def Registered (s : Registry) (fcmToken : String) (userId : UserId) : Prop :=
  ∃ row ∈ s.devices.rows, row.fcmToken = fcmToken ∧ row.userId = userId

/-! ## Rows and their tokens -/

/-- An identifier that has been given, and if its row is still there, to this token. -/
def Names (s : Registry) (id : DeviceId) (fcmToken : String) : Prop :=
  id ∈ s.issued ∧ ∀ row ∈ s.devices.rows, row.id = id → row.fcmToken = fcmToken

/-- In a later state no row has another token than before. -/
structure Later (s s' : Registry) : Prop where
  issued : s.issued ⊆ s'.issued
  rows : ∀ row ∈ s'.devices.rows, row.id ∈ s'.issued ∧ (row.id ∈ s.issued →
    ∃ row₀ ∈ s.devices.rows, row₀.id = row.id ∧ row₀.fcmToken = row.fcmToken)

variable {settings : PushSettings} {s s' : Registry} {e : DeviceEvent}

theorem Later.names (h : Later s s') {id : DeviceId} {fcmToken : String}
    (hid : s.Names id fcmToken) : s'.Names id fcmToken := by
  refine ⟨h.issued hid.1, fun row hrow hrid => ?_⟩
  obtain ⟨row₀, hrow₀, hid₀, htoken₀⟩ := (h.rows row hrow).2 (hrid ▸ hid.1)
  rw [← htoken₀]
  exact hid.2 row₀ hrow₀ (hid₀.trans hrid)

theorem Later.of_subset (hissued : ∀ row ∈ s.devices.rows, row.id ∈ s.issued)
    (hsame : s'.issued = s.issued) (hrows : ∀ row ∈ s'.devices.rows, row ∈ s.devices.rows) :
    Later s s' where
  issued := by rw [hsame]; exact List.Subset.refl _
  rows := by
    intro row hrow
    rw [hsame]
    exact ⟨hissued row (hrows row hrow), fun _ => ⟨row, hrows row hrow, rfl, rfl⟩⟩

theorem later_write (hissued : ∀ row ∈ s.devices.rows, row.id ∈ s.issued) (e : Enrolment)
    {id : DeviceId} (hid : id ∉ s.issued) (now : Timestamp) : Later s (s.write e id now) := by
  have hsame : Later s s := .of_subset hissued rfl fun _ h => h
  unfold write
  cases e.existing with
  | some row =>
    simp only
    split_ifs
    · refine ⟨List.Subset.refl _, fun row' hrow' => ?_⟩
      obtain ⟨row₀, hrow₀, rfl⟩ := Devices.mem_update.mp hrow'
      split_ifs with hat
      · exact ⟨hissued row₀ hrow₀, fun _ => ⟨row₀, hrow₀, rfl, rfl⟩⟩
      · exact ⟨hissued row₀ hrow₀, fun _ => ⟨row₀, hrow₀, rfl, rfl⟩⟩
    · exact hsame
  | none =>
    cases hinsert : s.devices.insert? (Enrolment.added e id now) with
    | none => exact hsame
    | some devices =>
      refine ⟨List.subset_cons_self _ _, fun row hrow => ?_⟩
      rcases (Devices.mem_insert? hinsert).mp hrow with hrow | rfl
      · exact ⟨List.mem_cons_of_mem _ (hissued row hrow), fun _ => ⟨row, hrow, rfl, rfl⟩⟩
      · exact ⟨List.mem_cons_self, fun hold => absurd hold hid⟩

/-- Every event leads to a later state. -/
theorem later_of_step (hissued : ∀ row ∈ s.devices.rows, row.id ∈ s.issued)
    (h : s.step settings e = some s') : Later s s' := by
  have hsame : ∀ {t : Registry}, t.issued = s.issued → t.devices = s.devices → Later s t :=
    fun hi hd => .of_subset hissued hi fun _ hrow => hd ▸ hrow
  have hless : ∀ {t : Registry} {p}, t.issued = s.issued → t.devices = s.devices.delete p →
      Later s t := by
    intro t p hi hd
    refine .of_subset hissued hi fun row hrow => ?_
    rw [hd, Devices.mem_delete] at hrow
    exact hrow.1
  cases e with
  | lookup t userId fcmToken platform =>
    simp only [step] at h
    split_ifs at h
    cases h
    exact hsame rfl rfl
  | register t id now =>
    obtain ⟨e, -, h⟩ := Option.bind_eq_some_iff.mp h
    split_ifs at h with hid
    cases h
    exact { later_write hissued e hid now with }
  | abandon t =>
    obtain ⟨e, -, rfl⟩ := Option.map_eq_some_iff.mp h
    exact hsame rfl rfl
  | unregister fcmToken =>
    cases h
    exact hless rfl rfl
  | read p userId notice tokens =>
    simp only [step] at h
    split_ifs at h
    · cases h
      exact hsame rfl rfl
    · cases h
      exact hsame rfl rfl
  | send p accessToken status =>
    obtain ⟨push, -, h⟩ := Option.bind_eq_some_iff.mp h
    split at h
    · cases h
    · cases h
      exact hsame rfl rfl
  | prune p =>
    obtain ⟨push, -, h⟩ := Option.bind_eq_some_iff.mp h
    split_ifs at h
    cases h
    exact hless rfl rfl
  | caught p =>
    obtain ⟨push, -, rfl⟩ := Option.map_eq_some_iff.mp h
    exact hsame rfl rfl

/-! ## What the calls hold -/

/-- What the running calls have read is of rows that still have the tokens they were read with. -/
structure Sound (s : Registry) : Prop where
  issued : ∀ row ∈ s.devices.rows, row.id ∈ s.issued
  todo : ∀ p push, s.pushes p = some push → ∀ d ∈ push.todo, s.Names d.id d.fcmToken
  dead : ∀ p push, s.pushes p = some push → ∀ id ∈ push.deadIds, id ∈ s.issued
  existing : ∀ t e row, s.enrolments t = some e → e.existing = some row →
    s.Names row.id e.fcmToken

theorem Quiet.sound (h : s.Quiet) : s.Sound where
  issued := h.issued
  todo := by
    intro p push hp
    rw [h.pushes p] at hp
    cases hp
  dead := by
    intro p push hp
    rw [h.pushes p] at hp
    cases hp
  existing := by
    intro t e row ht
    rw [h.enrolments t] at ht
    cases ht

/-- A row has the token it was read with. -/
theorem names_of_mem (h : s.Sound) {row : DeviceToken} (hrow : row ∈ s.devices.rows) :
    s.Names row.id row.fcmToken := by
  refine ⟨h.issued row hrow, fun row' hrow' hid => ?_⟩
  rw [s.devices.table.eq_of_key_eq hrow' hrow hid]

/-- What the calls hold after an event is checked against the rows before it. -/
theorem Sound.later (hl : Later s s')
    (htodo : ∀ p push, s'.pushes p = some push → ∀ d ∈ push.todo, s.Names d.id d.fcmToken)
    (hdead : ∀ p push, s'.pushes p = some push → ∀ id ∈ push.deadIds, id ∈ s.issued)
    (hexisting : ∀ t e row, s'.enrolments t = some e → e.existing = some row →
      s.Names row.id e.fcmToken) : s'.Sound where
  issued := fun row hrow => (hl.rows row hrow).1
  todo := fun p push hp d hd => hl.names (htodo p push hp d hd)
  dead := fun p push hp id hid => hl.issued (hdead p push hp id hid)
  existing := fun t e row ht he => hl.names (hexisting t e row ht he)

/-- What an event does to the pushes. -/
inductive PushMove (settings : PushSettings) (s : Registry) : DeviceEvent → Registry → Prop
  /-- None moves. -/
  | same {e : DeviceEvent} {s' : Registry} : s'.pushes = s.pushes → s'.started = s.started →
      s'.messages = s.messages → s'.results = s.results → PushMove settings s e s'
  /-- One returns at once. -/
  | none {e : DeviceEvent} {s' : Registry} {p : PushId} : p ∉ s.started → s'.pushes = s.pushes →
      s'.started = p :: s.started → s'.messages = s.messages → s'.results = s.results ++ [(p, 0)] →
      PushMove settings s e s'
  /-- One reads its devices. -/
  | read {e : DeviceEvent} {s' : Registry} {p : PushId} {userId : UserId} {notice : Notice}
      {tokens : List DeviceToken} : p ∉ s.started →
      tokens.Perm (s.devices.rows.filter fun row => row.userId = userId) →
      s'.pushes = Function.update s.pushes p (some ⟨userId, notice, tokens, 0, []⟩) →
      s'.started = p :: s.started → s'.messages = s.messages → s'.results = s.results →
      PushMove settings s e s'
  /-- One sends to a device. -/
  | send {s' : Registry} {p : PushId} {accessToken : Option String} {status : Option ℕ}
      {push : Push} {d : DeviceToken} {rest : List DeviceToken} :
      s.pushes p = some push → push.todo = d :: rest →
      s' = s.sendTo settings p push d rest accessToken status →
      PushMove settings s (.send p accessToken status) s'
  /-- One returns what it has counted, or has caught an exception. -/
  | ended {e : DeviceEvent} {s' : Registry} {p : PushId} {push : Push} {n : ℕ} :
      s.pushes p = some push → n = push.sent ∨ n = 0 ∧ e = .caught p →
      s'.pushes = Function.update s.pushes p Option.none → s'.started = s.started →
      s'.messages = s.messages → s'.results = s.results ++ [(p, n)] → PushMove settings s e s'

theorem PushMove.of_step (h : s.step settings e = some s') : PushMove settings s e s' := by
  cases e with
  | lookup t userId fcmToken platform =>
    simp only [step] at h
    split_ifs at h
    cases h
    exact .same rfl rfl rfl rfl
  | register t id now =>
    obtain ⟨e, -, h⟩ := Option.bind_eq_some_iff.mp h
    split_ifs at h
    cases h
    unfold write
    split
    · split_ifs <;> exact .same rfl rfl rfl rfl
    · split <;> exact .same rfl rfl rfl rfl
  | abandon t =>
    obtain ⟨e, -, rfl⟩ := Option.map_eq_some_iff.mp h
    exact .same rfl rfl rfl rfl
  | unregister fcmToken =>
    cases h
    exact .same rfl rfl rfl rfl
  | read p userId notice tokens =>
    simp only [step] at h
    split_ifs at h with hread
    · cases h
      exact .none hread.1 rfl rfl rfl rfl
    · cases h
      exact .read hread.1 (List.isPerm_iff.mp hread.2) rfl rfl rfl rfl
  | send p accessToken status =>
    obtain ⟨push, hp, h⟩ := Option.bind_eq_some_iff.mp h
    split at h
    · cases h
    · rename_i d rest htodo
      cases h
      exact .send hp htodo rfl
  | prune p =>
    obtain ⟨push, hp, h⟩ := Option.bind_eq_some_iff.mp h
    split_ifs at h
    cases h
    exact .ended hp (.inl rfl) rfl rfl rfl rfl
  | caught p =>
    obtain ⟨push, hp, rfl⟩ := Option.map_eq_some_iff.mp h
    exact .ended hp (.inr ⟨rfl, rfl⟩) rfl rfl rfl rfl

/-- A push that is under way was before, or has just read its devices, or has just sent to one. -/
theorem pushes_of_step (h : s.step settings e = some s') {p : PushId} {push : Push}
    (hp : s'.pushes p = some push) :
    s.pushes p = some push ∨ (push.deadIds = [] ∧ ∀ d ∈ push.todo, d ∈ s.devices.rows) ∨
    ∃ accessToken status push₀ d rest, e = .send p accessToken status ∧
      s.pushes p = some push₀ ∧ push₀.todo = d :: rest ∧
      push = push₀.after d rest (sendToToken settings accessToken status) := by
  cases PushMove.of_step h with
  | same hpushes => exact .inl (hpushes ▸ hp)
  | none _ hpushes => exact .inl (hpushes ▸ hp)
  | read _ htokens hpushes =>
    rw [hpushes] at hp
    rcases eq_some_of_update hp with ⟨rfl, ⟨⟩⟩ | ⟨-, hp⟩
    · exact .inr (.inl ⟨rfl, fun d hd => List.mem_of_mem_filter (htokens.mem_iff.mp hd)⟩)
    · exact .inl hp
  | @send _ q accessToken status push₀ d rest hq htodo hs' =>
    subst hs'
    rcases eq_some_of_update hp with ⟨rfl, ⟨⟩⟩ | ⟨-, hp⟩
    · exact .inr (.inr ⟨accessToken, status, push₀, d, rest, rfl, hq, htodo, rfl⟩)
    · exact .inl hp
  | ended _ _ hpushes =>
    rw [hpushes] at hp
    rcases eq_some_of_update hp with ⟨-, ⟨⟩⟩ | ⟨-, hp⟩
    exact .inl hp

/-- A registration that is under way was before, or has just found the row with its token. -/
theorem enrolments_of_step (h : s.step settings e = some s') {t : EnrolmentId} {en : Enrolment}
    (ht : s'.enrolments t = some en) :
    s.enrolments t = some en ∨
      ∀ row, en.existing = some row → row ∈ s.devices.rows ∧ row.fcmToken = en.fcmToken := by
  cases e with
  | lookup q userId fcmToken platform =>
    simp only [step] at h
    split_ifs at h
    cases h
    rcases eq_some_of_update ht with ⟨rfl, ⟨⟩⟩ | ⟨-, ht⟩
    · refine .inr fun row hrow => ⟨List.mem_of_find?_eq_some hrow, ?_⟩
      simpa using List.find?_some hrow
    · exact .inl ht
  | register q id now =>
    obtain ⟨e, -, h⟩ := Option.bind_eq_some_iff.mp h
    split_ifs at h
    cases h
    rcases eq_some_of_update ht with ⟨-, ⟨⟩⟩ | ⟨-, ht⟩
    exact .inl ht
  | abandon q =>
    obtain ⟨e, -, rfl⟩ := Option.map_eq_some_iff.mp h
    rcases eq_some_of_update ht with ⟨-, ⟨⟩⟩ | ⟨-, ht⟩
    exact .inl ht
  | unregister fcmToken =>
    cases h
    exact .inl ht
  | read q userId notice tokens =>
    simp only [step] at h
    split_ifs at h <;> cases h <;> exact .inl ht
  | send q accessToken status =>
    obtain ⟨push₀, -, h⟩ := Option.bind_eq_some_iff.mp h
    split at h
    · cases h
    · cases h
      exact .inl ht
  | prune q =>
    obtain ⟨push₀, -, h⟩ := Option.bind_eq_some_iff.mp h
    split_ifs at h
    cases h
    exact .inl ht
  | caught q =>
    obtain ⟨push₀, -, rfl⟩ := Option.map_eq_some_iff.mp h
    exact .inl ht

theorem Sound.step (h : s.Sound) (hs : s.step settings e = some s') : s'.Sound := by
  refine .later (later_of_step h.issued hs) ?_ ?_ ?_
  · intro p push hp d hd
    rcases pushes_of_step hs hp with hp | ⟨-, hread⟩ | ⟨_, _, push₀, d₀, rest, -, hp₀, htodo, rfl⟩
    · exact h.todo p push hp d hd
    · exact names_of_mem h (hread d hd)
    · exact h.todo p push₀ hp₀ d (by rw [htodo]; exact List.mem_cons_of_mem _ hd)
  · intro p push hp id hid
    rcases pushes_of_step hs hp with hp | ⟨hnone, -⟩ | ⟨_, _, push₀, d₀, rest, -, hp₀, htodo, rfl⟩
    · exact h.dead p push hp id hid
    · rw [hnone] at hid
      cases hid
    · simp only [Push.after] at hid
      split_ifs at hid
      · rcases List.mem_append.mp hid with hid | hid
        · exact h.dead p push₀ hp₀ id hid
        · obtain rfl := List.mem_singleton.mp hid
          exact (h.todo p push₀ hp₀ d₀ (by rw [htodo]; exact List.mem_cons_self)).1
      · exact h.dead p push₀ hp₀ id hid
  · intro t en row ht he
    rcases enrolments_of_step hs ht with ht | hfound
    · exact h.existing t en row ht he
    · obtain ⟨hrow, htoken⟩ := hfound row he
      rw [← htoken]
      exact names_of_mem h hrow

/-! ## A device stays registered -/

/-- A push that is under way has been told that the token is dead. -/
def Called (s : Registry) (fcmToken : String) : Prop :=
  ∃ p push, s.pushes p = some push ∧
    ∃ row ∈ s.devices.rows, row.fcmToken = fcmToken ∧ row.id ∈ push.deadIds

/-- The event neither unregisters the token nor registers it to another user, and the messaging
service does not call it dead. -/
def Spares (settings : PushSettings) (fcmToken : String) (userId : UserId) (s : Registry) :
    DeviceEvent → Prop
  | .unregister token => token ≠ fcmToken
  | .register t _ _ =>
    ∀ en ∈ s.enrolments t, en.fcmToken = fcmToken → en.userId = userId
  | .send p accessToken status =>
    ∀ push ∈ s.pushes p, ∀ d ∈ push.todo.head?, d.fcmToken = fcmToken →
      sendToToken settings accessToken status ≠ .dead
  | _ => True

instance (settings : PushSettings) (fcmToken : String) (userId : UserId) (s : Registry) :
    DecidablePred (Spares settings fcmToken userId s)
  | .unregister token => inferInstanceAs (Decidable (token ≠ fcmToken))
  | .register t _ _ => inferInstanceAs (Decidable (∀ en ∈ s.enrolments t,
      en.fcmToken = fcmToken → en.userId = userId))
  | .send p accessToken status => inferInstanceAs (Decidable (∀ push ∈ s.pushes p,
      ∀ d ∈ push.todo.head?, d.fcmToken = fcmToken →
        sendToToken settings accessToken status ≠ .dead))
  | .lookup .. => isTrue trivial
  | .abandon _ => isTrue trivial
  | .read .. => isTrue trivial
  | .prune _ => isTrue trivial
  | .caught _ => isTrue trivial

variable {fcmToken : String} {userId : UserId}

theorem not_called_of_step (h : s.Sound) (hs : s.step settings e = some s')
    (hok : Spares settings fcmToken userId s e) (hlive : ¬ s.Called fcmToken) :
    ¬ s'.Called fcmToken := by
  rintro ⟨p, push, hp, row, hrow, htoken, hid⟩
  have hl := later_of_step h.issued hs
  -- a row with an identifier that a push held before was there before, with the same token
  have hold : ∀ push₀, s.pushes p = some push₀ → row.id ∉ push₀.deadIds := by
    intro push₀ hp₀ hid₀
    obtain ⟨row₀, hrow₀, hid', htoken'⟩ := (hl.rows row hrow).2 (h.dead p push₀ hp₀ _ hid₀)
    exact hlive ⟨p, push₀, hp₀, row₀, hrow₀, htoken'.trans htoken, hid'.symm ▸ hid₀⟩
  rcases pushes_of_step hs hp with
    hp₀ | ⟨hnone, -⟩ | ⟨accessToken, status, push₀, d₀, rest, rfl, hp₀, htodo, rfl⟩
  · exact hold push hp₀ hid
  · rw [hnone] at hid
    cases hid
  · simp only [Push.after] at hid
    split_ifs at hid with hdead
    · rcases List.mem_append.mp hid with hid | hid
      · exact hold push₀ hp₀ hid
      · have hnames := h.todo p push₀ hp₀ d₀ (by rw [htodo]; exact List.mem_cons_self)
        have hsame := (hl.names hnames).2 row hrow (List.mem_singleton.mp hid)
        exact hok push₀ hp₀ d₀ (by rw [htodo]; rfl) (hsame.symm.trans htoken) hdead
    · exact hold push₀ hp₀ hid

/-- The statement of a registration of another device, or of this one to the same user. -/
theorem registered_write {t : EnrolmentId} {en : Enrolment} (h : s.Sound)
    (ht : s.enrolments t = some en) (hok : en.fcmToken = fcmToken → en.userId = userId)
    (hr : s.Registered fcmToken userId) (id : DeviceId) (now : Timestamp) :
    (s.write en id now).Registered fcmToken userId := by
  obtain ⟨row, hrow, htoken, huser⟩ := hr
  unfold write
  cases he : en.existing with
  | some found =>
    simp only
    split_ifs
    · by_cases hat : row.id = found.id
      · -- the row that is written is this one
        have htoken' := (h.existing t en found ht he).2 row hrow hat
        refine ⟨_, Devices.mem_update.mpr ⟨row, hrow, rfl⟩, ?_⟩
        rw [Tracked.set_base, Tracked.load_base, if_pos hat]
        refine ⟨htoken, ?_⟩
        simp only [DeviceToken.write, Tracked.set_base, Tracked.set_cur, Tracked.load_base,
          Enrolment.renewed, hok (htoken'.symm.trans htoken)]
        unfold writeBack writeBackAs
        split_ifs
        · exact huser
        · rfl
      · refine ⟨row, Devices.mem_update.mpr ⟨row, hrow, ?_⟩, htoken, huser⟩
        rw [Tracked.set_base, Tracked.load_base, if_neg hat]
    · exact ⟨row, hrow, htoken, huser⟩
  | none =>
    cases hinsert : s.devices.insert? (Enrolment.added en id now) with
    | none => exact ⟨row, hrow, htoken, huser⟩
    | some devices =>
      exact ⟨row, (Devices.mem_insert? hinsert).mpr (.inl hrow), htoken, huser⟩

theorem registered_of_step (h : s.Sound) (hs : s.step settings e = some s')
    (hok : Spares settings fcmToken userId s e) (hlive : ¬ s.Called fcmToken)
    (hr : s.Registered fcmToken userId) : s'.Registered fcmToken userId := by
  cases e with
  | lookup t user token platform =>
    simp only [step] at hs
    split_ifs at hs
    cases hs
    exact hr
  | register t id now =>
    obtain ⟨en, ht, hs⟩ := Option.bind_eq_some_iff.mp hs
    split_ifs at hs
    cases hs
    exact registered_write h ht (hok en ht) hr id now
  | abandon t =>
    obtain ⟨en, -, rfl⟩ := Option.map_eq_some_iff.mp hs
    exact hr
  | unregister token =>
    cases hs
    obtain ⟨row, hrow, htoken, huser⟩ := hr
    refine ⟨row, Devices.mem_delete.mpr ⟨hrow, ?_⟩, htoken, huser⟩
    exact decide_eq_false fun he => hok (he.symm.trans htoken)
  | read p user notice tokens =>
    simp only [step] at hs
    split_ifs at hs <;> cases hs <;> exact hr
  | send p accessToken status =>
    obtain ⟨push, -, hs⟩ := Option.bind_eq_some_iff.mp hs
    split at hs
    · cases hs
    · cases hs
      exact hr
  | prune p =>
    obtain ⟨push, hp, hs⟩ := Option.bind_eq_some_iff.mp hs
    split_ifs at hs
    cases hs
    obtain ⟨row, hrow, htoken, huser⟩ := hr
    refine ⟨row, Devices.mem_delete.mpr ⟨hrow, ?_⟩, htoken, huser⟩
    exact decide_eq_false fun hid => hlive ⟨p, push, hp, row, hrow, htoken, hid⟩
  | caught p =>
    obtain ⟨push, -, rfl⟩ := Option.map_eq_some_iff.mp hs
    exact hr

/-- **A device stays registered**: in every run from a quiet registry, whatever registrations,
unregistrations and pushes interleave, a device that is registered to a user, and that no push under
way has been told is dead, is registered to the user as long as nobody unregisters it or registers
it to another user, and the messaging service does not call its token dead. -/
theorem registered_until_dead {s₀ : Registry} {es₁ es₂ : List DeviceEvent} (hquiet : s₀.Quiet)
    (hrun : exec (step settings) s₀ es₁ = some s) (hlive : ¬ s.Called fcmToken)
    (hr : s.Registered fcmToken userId)
    (hspared : Run (step settings) (Spares settings fcmToken userId) s es₂ s') :
    s'.Registered fcmToken userId := by
  have hsound : s.Sound :=
    exec_invariant (fun t e t' ht hstep => ht.step hstep) hrun hquiet.sound
  have hkept : s'.Sound ∧ ¬ s'.Called fcmToken ∧ s'.Registered fcmToken userId := by
    apply hspared.invariant
    · rintro t e t' ⟨ht, hcalled, hreg⟩ hok hstep
      exact ⟨ht.step hstep, not_called_of_step ht hstep hok hcalled,
        registered_of_step ht hstep hok hcalled hreg⟩
    · exact ⟨hsound, hlive, hr⟩
  exact hkept.2.2

/-! ## A push while a device registers again -/

/-- Settings that allow pushes. -/
def sampleSettings : PushSettings := ⟨"{}", "zynost"⟩

/-- A phone of user 7. -/
def samplePhone : DeviceToken := ⟨1, 7, "phone", "ios", 0, 0⟩

/-- A tablet of the same user. -/
def sampleTablet : DeviceToken := ⟨2, 7, "tablet", "android", 0, 0⟩

/-- Two devices of one user. -/
def sampleRegistry : Registry where
  devices := ⟨⟨[samplePhone, sampleTablet], by decide⟩, by decide⟩
  pushes := fun _ => none
  enrolments := fun _ => none
  issued := [1, 2]
  started := []
  messages := []
  results := []

theorem quiet_sample : sampleRegistry.Quiet where
  pushes := fun _ => rfl
  enrolments := fun _ => rfl
  issued := by decide
  started := rfl
  messages := rfl
  results := rfl

/-- The phone registers again while a push is under way, to which the tablet turns out dead. -/
def sampleRun : List DeviceEvent :=
  [.lookup 0 7 "phone" "android", .read 0 7 ⟨"Paid", "An order was paid", []⟩
      [sampleTablet, samplePhone],
    .send 0 (some "key") (some 404), .register 0 3 20, .send 0 (some "key") (some 200), .prune 0]

/-- The tablet is gone after the run, the phone is not. -/
theorem registered_until_dead_sample : ∃ s', exec (step sampleSettings) sampleRegistry sampleRun =
    some s' ∧ ¬ s'.Registered "tablet" 7 ∧ s'.Registered "phone" 7 := by
  have hrun : ((exec (restrict (fun s e => decide (Spares sampleSettings "phone" 7 s e))
      (step sampleSettings)) sampleRegistry sampleRun).map fun s' =>
        s'.devices.rows.map DeviceToken.fcmToken) = some ["phone"] := by
    decide +kernel
  obtain ⟨s', hs', hrows⟩ := Option.map_eq_some_iff.mp hrun
  have hspared := Run.of_exec_restrict hs'
  refine ⟨s', hspared.exec_eq, ?_, ?_⟩
  · rintro ⟨row, hrow, htoken, -⟩
    have hmem := List.mem_map_of_mem (f := DeviceToken.fcmToken) hrow
    rw [hrows, htoken] at hmem
    exact absurd hmem (by decide)
  · refine registered_until_dead quiet_sample (exec_nil sampleRegistry) ?_
      ⟨samplePhone, List.mem_cons_self, rfl, rfl⟩ (hspared.mono fun _ _ => of_decide_eq_true)
    rintro ⟨p, push, ⟨⟩, -⟩

end Registry

end Gateway
