import Domoticz.Web.Session

/-!
# The session store

The web server keeps the sessions of its users in the table `Session` so that
they outlive a restart.  `StoreSession` writes a session with one of two
statements and `GetSession` reads it back; both name their columns by hand.

The statement that inserts has five columns and four arguments, and its columns
drift: the user name goes to `UserID`, the hash of the token to `RoleID`, the
expiry to `AuthToken`.  The first two are integers with a foreign key.  The
statement that updates has a closing parenthesis too many.

## Main definitions

* `base64Decode` — `base64_decode`.
* `SessionDb` — the table, and the keys its rows refer to.
* `getSession`, `storeSession` — the reader and the writer.
* `RoundTrips` — what the two are for.
* `ReadsBack` — a row that is read as the session.

## Main results

* `updateSql_unbalanced` — the text of the update is never accepted.
* `insert_not_readBack` — an inserted row is never read back as the session.
* `roundTrips_iff` — **storing and reading is the identity exactly when the session
  was there before.**
* `new_session_lost` — a new session is not stored.
-/

namespace Domoticz

open CLib

/-! ### Base64 -/

/-- `base64_chars.find(c)`. -/
def base64Value (c : UInt8) : Option UInt8 :=
  if chr 'A' ≤ c ∧ c ≤ chr 'Z' then some (c - 65)
  else if chr 'a' ≤ c ∧ c ≤ chr 'z' then some (c - 71)
  else if chr '0' ≤ c ∧ c ≤ chr '9' then some (c + 4)
  else if c = chr '+' then some 62
  else if c = chr '/' then some 63
  else none

/-- The first byte of a group of four. -/
def base64First (a b : UInt8) : UInt8 := (a <<< 2) + ((b &&& 0x30) >>> 4)

/-- The groups of four values; the last one may be short. -/
def base64Groups : List UInt8 → Bytes
  | a :: b :: c :: d :: rest =>
      base64First a b :: (((b &&& 0xf) <<< 4) + ((c &&& 0x3c) >>> 2)) ::
        (((c &&& 0x3) <<< 6) + d) :: base64Groups rest
  | [a, b, c] => [base64First a b, ((b &&& 0xf) <<< 4) + ((c &&& 0x3c) >>> 2)]
  | [a, b] => [base64First a b]
  | _ => []

/-- `base64_decode`. -/
def base64Decode (encoded : Bytes) : Bytes :=
  base64Groups ((encoded.takeWhile fun c => (base64Value c).isSome).filterMap base64Value)

/-! ### The table -/

/-- The conversion of a text for an `INTEGER` column: texts that look like a number
become one, and those consist of ASCII characters. -/
structure IntegerAffinity where
  toInteger : Bytes → Option ℤ
  numeric : ∀ t n, toInteger t = some n → t ≠ [] ∧ ∀ b ∈ t, b < 128

/-- The formatting of a time as local time, and `ParseSQLdatetime`. -/
structure DateFormat where
  format : ℤ → Bytes
  parse : Bytes → Option ℤ

/-- A row of the table `Session`, as its columns read as texts. -/
structure SessionRow where
  sessionID : Bytes
  authToken : Bytes
  userID : Bytes
  roleID : Bytes
  expiry : Bytes
  deriving DecidableEq, Repr

/-- The table `Session` and the keys its foreign keys refer to. -/
structure SessionDb where
  rows : List SessionRow
  users : List ℤ
  roles : List ℤ
  deriving DecidableEq, Repr

/-- `INSERT INTO Session (SessionID, UserID, RoleID, AuthToken, Expiry) VALUES (...)`.
A user or a role that does not exist makes it fail. -/
def insertSession (aff : IntegerAffinity) (sessionID userID roleID authToken expiry : Bytes)
    (db : SessionDb) : SessionDb :=
  match aff.toInteger userID, aff.toInteger roleID with
  | some user, some role =>
      if user ∈ db.users ∧ role ∈ db.roles then
        { db with rows := db.rows ++ [⟨sessionID, authToken, decimal user, decimal role, expiry⟩] }
      else db
  | _, _ => db

/-! ### The text of the update -/

/-- `%q`: quotes are doubled. -/
def quoted : Bytes → Bytes
  | [] => []
  | c :: s => if c = chr '\'' then chr '\'' :: chr '\'' :: quoted s else c :: quoted s

/-- The text of the update. -/
def updateSessionSql (authToken expires sessionID : Bytes) : Bytes :=
  str "UPDATE Session set AuthToken = '" ++ quoted authToken ++ str "', Expiry = '" ++
    quoted expires ++ str "') WHERE SessionID = '" ++ quoted sessionID ++ str "'"

/-- Outside of its literals the text has balanced parentheses; `depth` are open, and
`inLiteral` says whether the text starts inside of one. -/
def parenthesesBalance : Bytes → ℕ → Bool → Bool
  | [], depth, inLiteral => depth == 0 && !inLiteral
  | c :: s, depth, true => parenthesesBalance s depth (c != chr '\'')
  | c :: s, depth, false =>
      if c = chr '\'' then parenthesesBalance s depth true
      else if c = chr '(' then parenthesesBalance s (depth + 1) false
      else if c = chr ')' then if depth = 0 then false else parenthesesBalance s (depth - 1) false
      else parenthesesBalance s depth false

/-- A quoted text is a literal, and leaves it at the quote behind it. -/
theorem parenthesesBalance_quoted (t rest : Bytes) (depth : ℕ) :
    parenthesesBalance (quoted t ++ chr '\'' :: rest) depth true
      = parenthesesBalance rest depth false := by
  induction t with
  | nil => simp [quoted, parenthesesBalance]
  | cons c t ih =>
    rw [quoted]
    by_cases hc : c = chr '\''
    · rw [if_pos hc]
      simpa [parenthesesBalance] using ih
    · have hin : (c != chr '\'') = true := by simpa using hc
      rw [if_neg hc, List.cons_append, parenthesesBalance, hin]
      exact ih

/-- **The text of the update is never balanced.** -/
theorem updateSql_unbalanced (authToken expires sessionID : Bytes) :
    parenthesesBalance (updateSessionSql authToken expires sessionID) 0 false = false := by
  have hstart : ∀ rest, parenthesesBalance (str "UPDATE Session set AuthToken = '" ++ rest) 0 false
      = parenthesesBalance rest 0 true := fun _ => rfl
  have hexpiry : ∀ rest, parenthesesBalance (str ", Expiry = '" ++ rest) 0 false
      = parenthesesBalance rest 0 true := fun _ => rfl
  have hwhere : ∀ rest, parenthesesBalance (str ") WHERE SessionID = '" ++ rest) 0 false = false :=
    fun _ => rfl
  have hquote : str "', Expiry = '" = chr '\'' :: str ", Expiry = '" := rfl
  have hquote' : str "') WHERE SessionID = '" = chr '\'' :: str ") WHERE SessionID = '" := rfl
  rw [updateSessionSql, hquote, hquote']
  simp only [List.append_assoc, List.cons_append]
  rw [hstart, parenthesesBalance_quoted, hexpiry, parenthesesBalance_quoted, hwhere]

/-- The update: a text that is not balanced is a syntax error and changes nothing. -/
def updateSession (authToken expires sessionID : Bytes) (db : SessionDb) : SessionDb :=
  if parenthesesBalance (updateSessionSql authToken expires sessionID) 0 false then
    { db with rows := db.rows.map fun row =>
        if row.sessionID = sessionID then { row with authToken, expiry := expires } else row }
  else db

/-! ### The reader and the writer -/

section Store

variable (aff : IntegerAffinity) (date : DateFormat) (stray : ℤ)

/-- The first row of `SELECT ... FROM Session WHERE SessionID = '%q'`. -/
def selectSession (db : SessionDb) (sessionId : Bytes) : Option SessionRow :=
  db.rows.find? fun row => row.sessionID == cstr sessionId

/-- The record `GetSession` makes of a row.  A date that cannot be read leaves the
expiry as it was found. -/
def recordOf (row : SessionRow) : WebEmStoredSession where
  id := row.sessionID
  remoteHost := []
  authToken := row.roleID
  username := base64Decode row.userID
  expires := (date.parse row.authToken).getD stray

/-- `CWebServer::GetSession`. -/
def getSession (db : SessionDb) (sessionId : Bytes) : WebEmStoredSession :=
  if sessionId = [] then ⟨[], [], [], [], stray⟩
  else match selectSession db sessionId with
    | none => ⟨[], [], [], [], stray⟩
    | some row => recordOf date stray row

/-- `CWebServer::StoreSession`.  The user name is passed as an object and taken for its
text, and the argument for the last column is missing: what stands in its place is
`missing`. -/
def storeSession (missing : Bytes) (s : WebEmStoredSession) (db : SessionDb) : SessionDb :=
  if s.id = [] then db
  else
    let szExpires := date.format s.expires
    if (getSession date stray db s.id).id = [] then
      insertSession aff (cstr s.id) (cstr s.username) (cstr s.authToken) (cstr szExpires)
        (cstr missing) db
    else updateSession (cstr s.authToken) (cstr szExpires) (cstr s.id) db

/-- Storing a session and reading it gives the session, its expiry up to the format of
the date; the token that is accepted is the one stored; and the other sessions stay
what they are. -/
structure RoundTrips (missing : Bytes) (s : WebEmStoredSession) (db : SessionDb) : Prop where
  id : (getSession date stray (storeSession aff date stray missing s db) s.id).id = s.id
  username : (getSession date stray (storeSession aff date stray missing s db) s.id).username
    = s.username
  authToken : (getSession date stray (storeSession aff date stray missing s db) s.id).authToken
    = s.authToken
  expires : date.format
    (getSession date stray (storeSession aff date stray missing s db) s.id).expires
      = date.format s.expires
  accepts : ∀ (md5 : Bytes → Bytes) (token : Bytes),
    (getSession date stray (storeSession aff date stray missing s db) s.id).authToken = md5 token ↔
      s.authToken = md5 token
  others : ∀ id, id ≠ s.id →
    getSession date stray (storeSession aff date stray missing s db) id = getSession date stray db id

/-- The first row with the session's id reads as the session. -/
def RowReadsBack (s : WebEmStoredSession) (db : SessionDb) : Prop :=
  ∃ row, selectSession db s.id = some row ∧ row.sessionID = s.id ∧
    base64Decode row.userID = s.username ∧ row.roleID = s.authToken ∧
    date.format ((date.parse row.authToken).getD stray) = date.format s.expires

end Store

/-! ### What is read back -/

/-- The decimal digits. -/
def decimalDigits : Bytes := [48, 49, 50, 51, 52, 53, 54, 55, 56, 57]

/-- A digit's value, moved to the front of a byte, leaves no ASCII character. -/
theorem base64First_digit {a b : UInt8} (ha : isDigit 10 a = true) (hb : isDigit 10 b = true) :
    128 ≤ base64First (a + 4) (b + 4) := by
  have hmem : ∀ {c : UInt8}, isDigit 10 c = true → c ∈ decimalDigits := by
    intro c hc
    obtain ⟨hlo, hhi⟩ := isDigit_ten_iff.mp hc
    have h0 : chr '0' = 48 := rfl
    have h9 : chr '9' = 57 := rfl
    rw [h0, UInt8.le_iff_toNat_le] at hlo
    rw [h9, UInt8.le_iff_toNat_le] at hhi
    have hval : c = UInt8.ofNat c.toNat := by simp
    have hrange : 48 ≤ c.toNat ∧ c.toNat ≤ 57 := ⟨by simpa using hlo, by simpa using hhi⟩
    rw [hval]
    obtain ⟨hlo, hhi⟩ := hrange
    interval_cases c.toNat <;> decide
  have hlow : (decimalDigits.all fun c => ((c + 4) &&& 0x30) >>> 4 == 3) = true := by decide
  have hhigh : (decimalDigits.all fun c => decide ((128 : UInt8) ≤ ((c + 4) <<< 2) + 3)) = true := by
    decide
  rw [base64First, eq_of_beq (List.all_eq_true.mp hlow b (hmem hb))]
  exact of_decide_eq_true (List.all_eq_true.mp hhigh a (hmem ha))

theorem base64Value_digit {a : UInt8} (ha : isDigit 10 a = true) : base64Value a = some (a + 4) := by
  obtain ⟨hlo, hhi⟩ := isDigit_ten_iff.mp ha
  have h9 : chr '9' = 57 := rfl
  have hupper : ¬ chr 'A' ≤ a := by
    intro h
    have hA : chr 'A' = 65 := rfl
    rw [hA, UInt8.le_iff_toNat_le] at h
    rw [h9, UInt8.le_iff_toNat_le] at hhi
    simp at h hhi
    omega
  have hlower : ¬ chr 'a' ≤ a := by
    intro h
    have ha : chr 'a' = 97 := rfl
    rw [ha, UInt8.le_iff_toNat_le] at h
    rw [h9, UInt8.le_iff_toNat_le] at hhi
    simp at h hhi
    omega
  rw [base64Value, if_neg (fun h => hupper h.1), if_neg (fun h => hlower h.1), if_pos ⟨hlo, hhi⟩]

theorem base64Groups_cons (a b : UInt8) (values : List UInt8) :
    ∃ rest, base64Groups (a :: b :: values) = base64First a b :: rest := by
  cases values with
  | nil => exact ⟨_, rfl⟩
  | cons c values =>
    cases values with
    | nil => exact ⟨_, rfl⟩
    | cons d values => exact ⟨_, rfl⟩

/-- The decoded text of an integer is empty or does not start with an ASCII character. -/
theorem base64Decode_decimal (n : ℤ) :
    base64Decode (decimal n) = [] ∨ ∃ b rest, base64Decode (decimal n) = b :: rest ∧ 128 ≤ b := by
  cases n with
  | negSucc n =>
    have hminus : (base64Value (chr '-')).isSome = false := by decide
    left
    rw [base64Decode, decimal, List.takeWhile_cons_of_neg (by simp [hminus])]
    rfl
  | ofNat n =>
    have hall := List.all_eq_true.mp (numeral_toDigits n).2
    rw [decimal]
    generalize (Nat.toDigits 10 n).map chr = digits at hall
    cases digits with
    | nil => exact Or.inl rfl
    | cons a digits =>
      have hva := base64Value_digit (hall a List.mem_cons_self)
      cases digits with
      | nil =>
        left
        simp [base64Decode, hva, base64Groups]
      | cons b digits =>
        have hb := hall b (List.mem_cons_of_mem _ List.mem_cons_self)
        have hvb := base64Value_digit hb
        right
        rw [base64Decode, List.takeWhile_cons_of_pos (by simp [hva]),
          List.takeWhile_cons_of_pos (by simp [hvb]), List.filterMap_cons_some hva,
          List.filterMap_cons_some hvb]
        obtain ⟨rest, hrest⟩ := base64Groups_cons (a + 4) (b + 4)
          ((digits.takeWhile fun c => (base64Value c).isSome).filterMap base64Value)
        exact ⟨_, rest, hrest, base64First_digit (hall a List.mem_cons_self) hb⟩

/-- **An inserted row is never read back as the session**: the name it was given is the
decoded text of a number. -/
theorem insert_not_readBack {aff : IntegerAffinity} {username : Bytes} {user : ℤ}
    (h : aff.toInteger (cstr username) = some user) : base64Decode (decimal user) ≠ username := by
  obtain ⟨hne, hascii⟩ := aff.numeric _ _ h
  obtain ⟨b, t, rfl⟩ : ∃ b t, username = b :: t := by
    cases username with
    | nil => exact absurd rfl hne
    | cons b t => exact ⟨b, t, rfl⟩
  have hb : b ∈ cstr (b :: t) := by
    by_cases hb0 : b = 0
    · subst hb0
      exact absurd rfl hne
    · rw [cstr, List.takeWhile_cons_of_pos (by simpa using hb0)]
      exact List.mem_cons_self
  intro heq
  rcases base64Decode_decimal user with hnil | ⟨c, rest, hcons, hc⟩
  · rw [hnil] at heq
    cases heq
  · rw [hcons] at heq
    cases heq
    have := hascii _ hb
    rw [UInt8.lt_iff_toNat_lt] at this
    rw [UInt8.le_iff_toNat_le] at hc
    omega

section Store

variable {aff : IntegerAffinity} {date : DateFormat} {stray : ℤ} {missing : Bytes}
  {s : WebEmStoredSession} {db : SessionDb}

theorem updateSession_unchanged (authToken expires sessionID : Bytes) (db : SessionDb) :
    updateSession authToken expires sessionID db = db := by
  rw [updateSession, updateSql_unbalanced]
  rfl

/-- A session that is in the store already stays as it is. -/
theorem storeSession_known (aff : IntegerAffinity) (missing : Bytes) (hid : s.id ≠ [])
    (hknown : (getSession date stray db s.id).id ≠ []) :
    storeSession aff date stray missing s db = db := by
  rw [storeSession, if_neg hid]
  simp only [if_neg hknown, updateSession_unchanged]

/-- What is read of a session that was not in the store: nothing with an id, or a row
whose name is the decoded text of the number the name was taken for. -/
theorem storeSession_unknown (aff : IntegerAffinity) (missing : Bytes) (hid : s.id ≠ [])
    (hnew : (getSession date stray db s.id).id = []) :
    (getSession date stray (storeSession aff date stray missing s db) s.id).id = [] ∨
      ∃ user, aff.toInteger (cstr s.username) = some user ∧
        (getSession date stray (storeSession aff date stray missing s db) s.id).username
          = base64Decode (decimal user) := by
  rw [storeSession, if_neg hid]
  simp only [if_pos hnew, insertSession]
  cases huser : aff.toInteger (cstr s.username) with
  | none => exact Or.inl hnew
  | some user =>
    cases hrole : aff.toInteger (cstr s.authToken) with
    | none => exact Or.inl hnew
    | some role =>
      simp only
      split
      · cases hsel : selectSession db s.id with
        | none =>
          right
          refine ⟨user, rfl, ?_⟩
          rw [selectSession] at hsel
          rw [getSession, if_neg hid, selectSession, List.find?_append, hsel]
          simp [recordOf]
        | some row =>
          left
          rw [getSession, if_neg hid, hsel] at hnew
          rw [selectSession] at hsel
          rw [getSession, if_neg hid, selectSession, List.find?_append, hsel]
          exact hnew
      · exact Or.inl hnew

/-- A session that reads back was in the store. -/
theorem known_of_roundTrips (hid : s.id ≠ []) (h : RoundTrips aff date stray missing s db) :
    (getSession date stray db s.id).id ≠ [] := by
  intro hnew
  rcases storeSession_unknown aff missing hid hnew with
    hnil | ⟨user, huser, hname⟩
  · exact hid (h.id ▸ hnil)
  · exact insert_not_readBack huser (hname ▸ h.username)

end Store

/-- **Storing and reading is the identity exactly when** the session's first row reads as
the session before it is stored. -/
theorem roundTrips_iff (aff : IntegerAffinity) (date : DateFormat) (stray : ℤ) (missing : Bytes)
    (s : WebEmStoredSession) (db : SessionDb) :
    (s.id ≠ [] → chr '\'' ∉ s.username → RoundTrips aff date stray missing s db) ↔
      (s.id ≠ [] → chr '\'' ∉ s.username → RowReadsBack date stray s db) := by
  refine forall_congr' fun hid => forall_congr' fun _ => ?_
  constructor
  · intro h
    have hknown := known_of_roundTrips hid h
    -- a row that is there is not written again
    have hsame := storeSession_known aff missing hid hknown
    obtain ⟨hrid, huser, htoken, hexp, -, -⟩ := h
    rw [hsame] at hrid huser htoken hexp
    rw [getSession, if_neg hid] at hrid huser htoken hexp
    cases hsel : selectSession db s.id with
    | none =>
      rw [hsel] at hrid
      exact absurd hrid.symm hid
    | some row =>
      rw [hsel] at hrid huser htoken hexp
      exact ⟨row, hsel, hrid, huser, htoken, hexp⟩
  · rintro ⟨row, hsel, hrid, huser, htoken, hexp⟩
    have hget : getSession date stray db s.id = recordOf date stray row := by
      rw [getSession, if_neg hid, hsel]
    have hknown : (getSession date stray db s.id).id ≠ [] := by
      rw [hget]
      show row.sessionID ≠ []
      rw [hrid]
      exact hid
    have hsame := storeSession_known aff missing hid hknown
    constructor
    · rw [hsame, hget]
      exact hrid
    · rw [hsame, hget]
      exact huser
    · rw [hsame, hget]
      exact htoken
    · rw [hsame, hget]
      exact hexp
    · intro md5 token
      rw [hsame, hget, recordOf, htoken]
    · intro id _
      rw [hsame]

/-- Decimal numerals become integers. -/
def numeralAffinity : IntegerAffinity where
  toInteger t := if Numeral t then some (digitsValue 10 t) else none
  numeric := by
    intro t n h
    split at h
    · next hnum =>
      refine ⟨hnum.1, fun b hb => ?_⟩
      have hdigit := (isDigit_ten_iff.mp (List.all_eq_true.mp hnum.2 b hb)).2
      have h9 : chr '9' = 57 := rfl
      rw [h9, UInt8.le_iff_toNat_le] at hdigit
      rw [UInt8.lt_iff_toNat_lt]
      simp at hdigit ⊢
      omega
    · cases h

/-- The epoch, and nothing else. -/
def epochFormat : DateFormat where
  format _ := str "1970-01-01 00:00:00"
  parse _ := some 0

/-- The session of the user `admin` is not stored: the foreign key of `UserID` fails. -/
theorem new_session_lost :
    ¬ ((⟨str "abc", [], str "0cc1", str "admin", 0⟩ : WebEmStoredSession).id ≠ [] →
      chr '\'' ∉ str "admin" → RoundTrips numeralAffinity epochFormat 0 []
        ⟨str "abc", [], str "0cc1", str "admin", 0⟩ ⟨[], [1], [1]⟩) := by
  intro h
  have hid := (h (by decide) (by decide)).id
  exact absurd hid (by decide)

end Domoticz
