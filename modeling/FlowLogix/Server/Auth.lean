/-
  Server/Auth.lean --- who a request acts for
  (backend/src/auth, backend/src/common/tenant/active-org-id.decorator.ts).

  A login checks the password and signs a token that carries the user and the organization.
  The guard reads the token from the `Authorization` header and attaches what it carries;
  every route but the login and the health reports is behind it, and the organization of a
  request comes from there alone.

  Tokens are signed with a secret: `Jwt` says what the library does with them, and that
  nobody else made one is a condition on the requests of a run.
-/
import FlowLogix.Server.SyncTenancy

set_option autoImplicit false

namespace FlowLogix.Foundation

/-- `String.prototype.toLowerCase`, where it can give an ASCII word of the letters in
"bearer". -/
def toLowerAscii (s : JsString) : JsString :=
  s.map fun u => if 65 ≤ u.val ∧ u.val ≤ 90 then u + 32 else u

/-- `s.split(/\s+/)` of a trimmed string, without an empty first part. -/
def words (s : JsString) : List JsString := (s.splitOnP isWhiteSpace).filter (· ≠ [])

/-- Two words with a blank between them. -/
theorem words_pair {a b : JsString} {blank : CodeUnit} (ha : ∀ u ∈ a, isWhiteSpace u = false)
    (hb : ∀ u ∈ b, isWhiteSpace u = false) (hblank : isWhiteSpace blank = true)
    (hnonempty : a ≠ [] ∧ b ≠ []) : words (a ++ blank :: b) = [a, b] := by
  rw [words, List.splitOnP_append_cons_of_forall_mem ha _ hblank, List.splitOnP_eq_singleton hb]
  simp [hnonempty]

/-- A string without a blank at either end is not trimmed. -/
theorem trim_eq_self {s : JsString} (hhead : ∀ u ∈ s.head?, isWhiteSpace u = false)
    (hlast : ∀ u ∈ s.getLast?, isWhiteSpace u = false) : trim s = s := by
  have hkept : ∀ {l : JsString}, (∀ u ∈ l.head?, isWhiteSpace u = false) →
      l.dropWhile isWhiteSpace = l := by
    intro l hl
    cases l with
    | nil => rfl
    | cons u l => exact List.dropWhile_cons_of_neg (by rw [hl u rfl]; exact Bool.false_ne_true)
  rw [trim, hkept hhead, hkept (by rwa [List.head?_reverse]), List.reverse_reverse]

end FlowLogix.Foundation

namespace FlowLogix.Server

open FlowLogix.Foundation

variable {pg : Postgres}

/-! ## Tokens -/

/-- `JwtPayload`. -/
structure JwtPayload where
  sub : JsString
  orgId : JsString
  email : JsString
  deriving DecidableEq

/-- The token library with the server's secret, in seconds. -/
structure Jwt where
  sign : JwtPayload → Int → JsString
  verify : JsString → Int → Option JwtPayload
  lifetime : Int
  /-- A signed token verifies until it expires. -/
  verify_sign : ∀ payload issued now, verify (sign payload issued) now =
    if now < issued + lifetime then some payload else none
  /-- It is one word. -/
  sign_word : ∀ payload issued, sign payload issued ≠ [] ∧
    ∀ u ∈ sign payload issued, isWhiteSpace u = false

/-- `AuthUser`. -/
structure AuthUser where
  userId : JsString
  orgId : JsString
  email : JsString
  deriving DecidableEq

/-- Why a request is not answered. -/
inductive HttpFailure where
  | unauthorized (message : JsString)
  | failed (failure : Failure)
  deriving DecidableEq

/-! ## The service -/

namespace AuthService

/-- The hash that is compared for an account there is none of. -/
def DUMMY_HASH : JsString := js "$2b$10$wR3JmayZaZZ2FAWm2VINNOjgBUQ1swBC.yjy2Rm9HDqcQfGRHVome"

/-- `usersRepo.findOne({ where: { email } })`. -/
def findByEmail (t : Tables pg) (email : JsString) : Option (JsString × User) :=
  (select t.users fun _ user => user.email = email).head?

/-- `AuthService.login`: the token, and the user it is for. `compare` is bcrypt's. -/
def login (jwt : Jwt) (compare : JsString → JsString → Bool) (t : Tables pg) (now : Int)
    (email password : JsString) : Except HttpFailure (JsString × JsString × User) :=
  let user := findByEmail t email
  let passwordMatches := compare password ((user.map fun e => e.2.passwordHash).getD DUMMY_HASH)
  match user with
  | none => .error (.unauthorized (js "Invalid credentials"))
  | some (id, user) =>
      if !user.isActive || !passwordMatches then
        .error (.unauthorized (js "Invalid credentials"))
      else .ok (jwt.sign { sub := id, orgId := user.orgId, email := user.email } now, id, user)

/-- `AuthService.profile`. -/
def profile (t : Tables pg) (userId orgId : JsString) : Except HttpFailure (JsString × User) :=
  match Database.key pg userId with
  | .error failure => .error (.failed failure)
  | .ok k =>
      match (t.users.lookup k).filter fun user => user.orgId = orgId && user.isActive with
      | none => .error (.unauthorized (js "User no longer exists or is inactive"))
      | some user => .ok (k, user)

end AuthService

/-! ## The guard -/

namespace JwtAuthGuard

/-- `JwtAuthGuard.bearerToken`. -/
def bearerToken (authorization : Option JsString) : Option JsString :=
  authorization.bind fun header =>
    match words (trim header) with
    | scheme :: value :: _ => if toLowerAscii scheme = js "bearer" then some value else none
    | _ => none

/-- `JwtAuthGuard.canActivate`, on a route that is not public. -/
def canActivate (jwt : Jwt) (authorization : Option JsString) (now : Int) :
    Except HttpFailure AuthUser :=
  match bearerToken authorization with
  | none => .error (.unauthorized (js "Missing bearer token"))
  | some token =>
      match jwt.verify token now with
      | none => .error (.unauthorized (js "Invalid or expired token"))
      | some payload =>
          .ok { userId := payload.sub, orgId := payload.orgId, email := payload.email }

/-- A client's header is read as the client's token. -/
theorem bearerToken_bearer {token : JsString}
    (h : token ≠ [] ∧ ∀ u ∈ token, isWhiteSpace u = false) :
    bearerToken (some (js "Bearer " ++ token)) = some token := by
  have hheader : js "Bearer " ++ token = js "Bearer" ++ 0x20 :: token := by
    rw [show js "Bearer " = js "Bearer" ++ [0x20] by decide, List.append_assoc]
    rfl
  have htrim : trim (js "Bearer " ++ token) = js "Bearer " ++ token := by
    refine trim_eq_self (fun u hu => ?_) fun u hu => ?_
    · obtain rfl : 66 = u := Option.some.inj hu
      decide
    · rw [List.getLast?_append_of_ne_nil _ h.1] at hu
      exact h.2 u (List.mem_of_mem_getLast? hu)
  show (match words (trim (js "Bearer " ++ token)) with
    | scheme :: value :: _ => if toLowerAscii scheme = js "bearer" then some value else none
    | _ => none) = some token
  have hscheme : ∀ u ∈ js "Bearer", isWhiteSpace u = false := by
    have hall : (js "Bearer").all (fun u => !isWhiteSpace u) = true := by decide
    intro u hu
    exact (Bool.not_eq_true' _).mp (List.all_eq_true.mp hall u hu)
  have hblank : isWhiteSpace 0x20 = true := by decide
  rw [htrim, hheader, words_pair hscheme h.2 hblank ⟨by decide, h.1⟩]
  rfl

/-- A signed token passes until it expires. -/
theorem canActivate_bearer (jwt : Jwt) (payload : JwtPayload) {issued now : Int}
    (h : now < issued + jwt.lifetime) :
    canActivate jwt (some (js "Bearer " ++ jwt.sign payload issued)) now =
      .ok { userId := payload.sub, orgId := payload.orgId, email := payload.email } := by
  unfold canActivate
  rw [bearerToken_bearer (jwt.sign_word payload issued)]
  show (match jwt.verify (jwt.sign payload issued) now with
    | none => Except.error _
    | some payload => Except.ok _) = _
  rw [jwt.verify_sign, if_pos h]

end JwtAuthGuard

/-- `ActiveOrgId`. -/
def activeOrgId (user : AuthUser) : Except HttpFailure JsString :=
  if user.orgId = [] then .error (.unauthorized (js "Authentication required"))
  else .ok user.orgId

/-! ## The server -/

/-- A route. -/
inductive Route where
  /-- `POST /auth/login` -/
  | login (email password : JsString)
  /-- `GET /health` and `GET /health/metrics` -/
  | health
  /-- `GET /` -/
  | hello
  /-- `GET /auth/me` -/
  | me
  /-- `POST /sync`, `wall` being `Date.now()` -/
  | sync (wall : Nat) (request : SyncRequestDto)
  | api (request : Request)

/-- `@Public()`: the guard lets every request through. -/
def Route.isPublic : Route → Bool
  | .login _ _ | .health => true
  | _ => false

/-- A request as it arrives. -/
structure HttpRequest where
  authorization : Option JsString
  now : Int
  route : Route

/-- A login the server has answered. -/
structure Login where
  token : JsString
  id : JsString
  user : User
  password : JsString
  issued : Int

/-- What the server answers. -/
inductive Reply (pg : Postgres) where
  | token (token id : JsString) (user : SafeUser)
  /-- a text that tells of no row -/
  | report
  | profile (id : JsString) (user : SafeUser)
  | synced (c : SyncCollection) (body : SyncResponseDto)
  | response (body : Response pg)

/-- The rows a reply tells of. -/
def Reply.records : Reply pg → List Record
  | .token _ id _ => [.user id]
  | .report => []
  | .profile id _ => [.user id]
  | .synced c body => body.records pg c
  | .response body => body.records

/-- The tables, the last checkpoint, and the logins so far. -/
structure Site (pg : Postgres) where
  tables : Tables pg
  lastMicros : Nat
  logins : List Login

/-- The organization a route runs as: the one route without `ActiveOrgId` makes an
organization of its own. -/
def Request.activeOrgId (user : AuthUser) : Request → Except HttpFailure JsString
  | .createOrganization _ _ => .ok user.orgId
  | _ => Server.activeOrgId user

namespace Site

section Handle

variable (jwt : Jwt) (compare : JsString → JsString → Bool)

/-- A request. -/
def handle (site : Site pg) (request : HttpRequest) : Except HttpFailure (Reply pg × Site pg) :=
  match request.route with
  | .login email password => do
      let (token, id, user) ←
        AuthService.login jwt compare site.tables request.now email password
      let login : Login :=
        { token := token, id := id, user := user, password := password, issued := request.now }
      return (.token token id user.withoutHash, { site with logins := site.logins ++ [login] })
  | .health => .ok (.report, site)
  | .hello => do
      let _ ← JwtAuthGuard.canActivate jwt request.authorization request.now
      return (.report, site)
  | .me => do
      let principal ← JwtAuthGuard.canActivate jwt request.authorization request.now
      let (id, user) ← AuthService.profile site.tables principal.userId principal.orgId
      return (.profile id user.withoutHash, site)
  | .sync wall dto => do
      let principal ← JwtAuthGuard.canActivate jwt request.authorization request.now
      let orgId ← activeOrgId principal
      match site.tables.sync site.lastMicros orgId wall dto with
      | .error failure => .error (.failed failure)
      | .ok (body, tables, lastMicros) =>
          .ok (.synced dto.collection body,
            { site with tables := tables, lastMicros := lastMicros })
  | .api route => do
      let principal ← JwtAuthGuard.canActivate jwt request.authorization request.now
      let orgId ← route.activeOrgId principal
      match route.run site.tables orgId with
      | .error failure => .error (.failed failure)
      | .ok (body, tables) => .ok (.response body, { site with tables := tables })

end Handle

end Site

/-! ## Who a request acts for -/

variable {jwt : Jwt} {compare : JsString → JsString → Bool} {site site' : Site pg}

/-- A login with the right password, of a user that was active. -/
structure Login.Checked (jwt : Jwt) (compare : JsString → JsString → Bool) (login : Login) :
    Prop where
  active : login.user.isActive = true
  matched : compare login.password login.user.passwordHash = true
  signed : login.token = jwt.sign
    { sub := login.id, orgId := login.user.orgId, email := login.user.email } login.issued

/-- The text of a uuid column is a canonical one. -/
structure Canonical (t : Tables pg) : Prop where
  users : ∀ k user, t.users.lookup k = some user → pg.uuid k = some k ∧
    pg.uuid user.orgId = some user.orgId
  rows : ∀ c k, k ∈ t.table c → pg.uuid k = some k

namespace AuthService

theorem login_eq_ok {t : Tables pg} {now : Int} {email password token id : JsString} {user : User}
    (h : login jwt compare t now email password = .ok (token, id, user)) :
    t.users.lookup id = some user ∧ user.email = email ∧
      Login.Checked jwt compare
        { token := token, id := id, user := user, password := password, issued := now } := by
  simp only [login] at h
  split at h
  · cases h
  · rename_i id' user' hfound
    split at h
    · cases h
    · rename_i hchecked
      obtain ⟨rfl, rfl, rfl⟩ : _ ∧ id' = id ∧ user' = user := by simpa using h
      obtain ⟨hactive, hmatched⟩ := not_or.mp (Bool.or_eq_true_iff.not.mp hchecked)
      obtain ⟨hrow, hemail⟩ := mem_select.mp (List.mem_of_mem_head? hfound)
      refine ⟨hrow, of_decide_eq_true hemail, ?_, ?_, rfl⟩
      · simpa using hactive
      · simpa [hfound] using hmatched

theorem profile_eq_ok {t : Tables pg} {userId orgId id : JsString} {user : User}
    (h : profile t userId orgId = .ok (id, user)) :
    pg.uuid userId = some id ∧ t.orgOf (.user id) = some orgId ∧ user.orgId = orgId := by
  unfold profile at h
  split at h
  · cases h
  · rename_i k hk
    split at h
    · cases h
    · rename_i found hfound
      obtain ⟨rfl, rfl⟩ := Prod.mk.inj (Except.ok.inj h)
      obtain ⟨hrow, hown⟩ := Option.filter_eq_some_iff.mp hfound
      obtain ⟨horg, -⟩ := Bool.and_eq_true_iff.mp hown
      have horg := of_decide_eq_true horg
      exact ⟨key_eq_ok hk, Option.map_eq_some_iff.mpr ⟨found, hrow, horg⟩, horg⟩

end AuthService

theorem JwtAuthGuard.canActivate_eq_ok {authorization : Option JsString} {now : Int}
    {principal : AuthUser} (h : canActivate jwt authorization now = .ok principal) :
    ∃ token payload, bearerToken authorization = some token ∧
      jwt.verify token now = some payload ∧ principal =
        { userId := payload.sub, orgId := payload.orgId, email := payload.email } := by
  unfold canActivate at h
  split at h
  · cases h
  · rename_i token htoken
    split at h
    · cases h
    · rename_i payload hpayload
      exact ⟨token, payload, htoken, hpayload, (Except.ok.inj h).symm⟩

/-! ## Runs -/

/-- What is left to the clients, the store and the secret. -/
structure HttpRequest.Allowed (jwt : Jwt) (site : Site pg) (request : HttpRequest) : Prop where
  accepted : ∀ route, request.route = .api route → route.Accepted
  canonical : Canonical site.tables
  /-- a token that verifies is one the server has signed -/
  unforged : ∀ token payload, JwtAuthGuard.bearerToken request.authorization = some token →
    jwt.verify token request.now = some payload → ∃ login ∈ site.logins, login.token = token

/-- Coherent tables, and logins that were checked. -/
structure Site.Sound (jwt : Jwt) (compare : JsString → JsString → Bool) (site : Site pg) :
    Prop where
  coherent : site.tables.Coherent
  checked : ∀ login ∈ site.logins, login.Checked jwt compare
  canonical : ∀ login ∈ site.logins, pg.uuid login.id = some login.id ∧
    pg.uuid login.user.orgId = some login.user.orgId

/-- A request acts for a login: it was checked, its token has not expired, and only rows of
its organization are told of and changed. -/
structure Login.Serves (jwt : Jwt) (compare : JsString → JsString → Bool) (login : Login)
    (request : HttpRequest) (site : Site pg) (reply : Reply pg) (site' : Site pg) : Prop where
  checked : login.Checked jwt compare
  bearer : JwtAuthGuard.bearerToken request.authorization = some login.token
  unexpired : request.now < login.issued + jwt.lifetime
  stays : Tables.Stays login.user.orgId site.tables reply.records site'.tables
  logins : site'.logins = site.logins

variable {request : HttpRequest} {reply : Reply pg}

/-- Whom the guard lets through. -/
theorem Site.Sound.principal (h : site.Sound jwt compare) (hallowed : request.Allowed jwt site)
    {principal : AuthUser}
    (hguard : JwtAuthGuard.canActivate jwt request.authorization request.now = .ok principal) :
    ∃ login ∈ site.logins, JwtAuthGuard.bearerToken request.authorization = some login.token ∧
      request.now < login.issued + jwt.lifetime ∧ principal =
        { userId := login.id, orgId := login.user.orgId, email := login.user.email } := by
  obtain ⟨token, payload, htoken, hverify, rfl⟩ := JwtAuthGuard.canActivate_eq_ok hguard
  obtain ⟨login, hlogin, rfl⟩ := hallowed.unforged token payload htoken hverify
  rw [(h.checked login hlogin).signed, jwt.verify_sign] at hverify
  obtain ⟨hunexpired, hpayload⟩ := Option.ite_none_right_eq_some.mp hverify
  obtain rfl := Option.some.inj hpayload
  exact ⟨login, hlogin, htoken, hunexpired, rfl⟩

theorem activeOrgId_eq_ok {user : AuthUser} {orgId : JsString}
    (h : activeOrgId user = .ok orgId) : orgId = user.orgId := by
  unfold activeOrgId at h
  split at h
  · cases h
  · exact (Except.ok.inj h).symm

theorem Request.activeOrgId_eq_ok {user : AuthUser} {route : Request} {orgId : JsString}
    (h : route.activeOrgId user = .ok orgId) : orgId = user.orgId := by
  cases route with
  | createOrganization id dto => exact (Except.ok.inj h).symm
  | _ => exact Server.activeOrgId_eq_ok h

/-- Past the guard, a request acts for a login. -/
theorem Site.Sound.serves (hcolumn : CreatorColumn pg) (h : site.Sound jwt compare)
    (hallowed : request.Allowed jwt site)
    (hroute : request.route.isPublic = false)
    (hhandle : site.handle jwt compare request = .ok (reply, site')) :
    ∃ login ∈ site.logins, login.Serves jwt compare request site reply site' := by
  unfold Site.handle at hhandle
  split at hhandle
  · rename_i hlogin
    rw [hlogin] at hroute
    cases hroute
  · rename_i hhealth
    rw [hhealth] at hroute
    cases hroute
  · obtain ⟨principal, hguard, hhandle⟩ := bind_eq_ok.mp hhandle
    obtain ⟨login, hlogin, hbearer, hunexpired, -⟩ := h.principal hallowed hguard
    obtain ⟨rfl, rfl⟩ := Prod.mk.inj (Except.ok.inj hhandle)
    exact ⟨login, hlogin, h.checked login hlogin, hbearer, hunexpired,
      .read fun _ r hr => absurd hr List.not_mem_nil, rfl⟩
  · obtain ⟨principal, hguard, hhandle⟩ := bind_eq_ok.mp hhandle
    obtain ⟨login, hlogin, hbearer, hunexpired, rfl⟩ := h.principal hallowed hguard
    obtain ⟨⟨id, user⟩, hprofile, hhandle⟩ := bind_eq_ok.mp hhandle
    obtain ⟨rfl, rfl⟩ := Prod.mk.inj (Except.ok.inj hhandle)
    refine ⟨login, hlogin, h.checked login hlogin, hbearer, hunexpired, .read fun _ r hr => ?_,
      rfl⟩
    obtain rfl := List.mem_singleton.mp hr
    exact (AuthService.profile_eq_ok hprofile).2.1
  · obtain ⟨principal, hguard, hhandle⟩ := bind_eq_ok.mp hhandle
    obtain ⟨login, hlogin, hbearer, hunexpired, rfl⟩ := h.principal hallowed hguard
    obtain ⟨orgId, horgId, hhandle⟩ := bind_eq_ok.mp hhandle
    obtain rfl := activeOrgId_eq_ok horgId
    split at hhandle
    · cases hhandle
    · rename_i body tables lastMicros hsync
      obtain ⟨rfl, rfl⟩ := Prod.mk.inj (Except.ok.inj hhandle)
      exact ⟨login, hlogin, h.checked login hlogin, hbearer, hunexpired, Tables.stays_sync hcolumn
        (h.canonical login hlogin).2 hallowed.canonical.rows hsync, rfl⟩
  · rename_i route hapi
    obtain ⟨principal, hguard, hhandle⟩ := bind_eq_ok.mp hhandle
    obtain ⟨login, hlogin, hbearer, hunexpired, rfl⟩ := h.principal hallowed hguard
    obtain ⟨orgId, horgId, hhandle⟩ := bind_eq_ok.mp hhandle
    obtain rfl := Request.activeOrgId_eq_ok horgId
    split at hhandle
    · cases hhandle
    · rename_i body tables hrun
      obtain ⟨rfl, rfl⟩ := Prod.mk.inj (Except.ok.inj hhandle)
      exact ⟨login, hlogin, h.checked login hlogin, hbearer, hunexpired, Request.stays hcolumn
        (h.canonical login hlogin).2 (hallowed.accepted route hapi) hrun, rfl⟩

/-- The principal of a request that acts for a login. -/
theorem Login.Serves.canActivate {login : Login}
    (h : login.Serves jwt compare request site reply site') :
    JwtAuthGuard.canActivate jwt request.authorization request.now =
      .ok { userId := login.id, orgId := login.user.orgId, email := login.user.email } := by
  have hverify := jwt.verify_sign
    { sub := login.id, orgId := login.user.orgId, email := login.user.email } login.issued
    request.now
  rw [← h.checked.signed, if_pos h.unexpired] at hverify
  unfold JwtAuthGuard.canActivate
  rw [h.bearer]
  show (match jwt.verify login.token request.now with
    | none => Except.error _
    | some payload => Except.ok _) = _
  rw [hverify]

/-- The profile of a login is its user's. -/
theorem Login.Serves.profile {login : Login} (h : login.Serves jwt compare request site reply site')
    (hcanonical : pg.uuid login.id = some login.id) (hroute : request.route = .me)
    (hhandle : site.handle jwt compare request = .ok (reply, site')) :
    ∃ user : User, reply = .profile login.id user.withoutHash ∧
      user.orgId = login.user.orgId := by
  unfold Site.handle at hhandle
  rw [hroute] at hhandle
  obtain ⟨principal, hguard, hhandle⟩ := bind_eq_ok.mp hhandle
  obtain rfl := Except.ok.inj (h.canActivate.symm.trans hguard)
  obtain ⟨⟨id, user⟩, hprofile, hhandle⟩ := bind_eq_ok.mp hhandle
  obtain ⟨rfl, rfl⟩ := Prod.mk.inj (Except.ok.inj hhandle)
  obtain ⟨hid, -, horg⟩ := AuthService.profile_eq_ok hprofile
  obtain rfl : login.id = id := Option.some.inj (hcanonical.symm.trans hid)
  exact ⟨user, rfl, horg⟩

/-- A login, as the server answers it. -/
theorem Site.handle_login {authorization : Option JsString} {now : Int}
    {email password : JsString} (h : site.handle jwt compare
      { authorization := authorization, now := now, route := .login email password } =
        .ok (reply, site')) :
    ∃ token id user, AuthService.login jwt compare site.tables now email password =
        .ok (token, id, user) ∧ reply = .token token id user.withoutHash ∧
      site' = { site with logins := site.logins ++
        [{ token := token, id := id, user := user, password := password, issued := now }] } := by
  obtain ⟨⟨token, id, user⟩, hlogin, h⟩ := bind_eq_ok.mp h
  obtain ⟨rfl, rfl⟩ := Prod.mk.inj (Except.ok.inj h)
  exact ⟨token, id, user, hlogin, rfl, rfl⟩

/-- A public request changes no row and keeps the logins there are, each new one checked. -/
theorem Site.handle_public (hroute : request.route.isPublic = true)
    (hhandle : site.handle jwt compare request = .ok (reply, site')) :
    site'.tables = site.tables ∧ ∃ logins, site'.logins = site.logins ++ logins ∧
      ∀ login ∈ logins, login.Checked jwt compare ∧
        site.tables.users.lookup login.id = some login.user := by
  obtain ⟨authorization, now, route⟩ := request
  cases route with
  | login email password =>
      obtain ⟨token, id, user, hlogin, -, rfl⟩ := Site.handle_login hhandle
      obtain ⟨hrow, -, hchecked⟩ := AuthService.login_eq_ok hlogin
      refine ⟨rfl, _, rfl, fun login hmem => ?_⟩
      exact List.mem_singleton.mp hmem ▸ ⟨hchecked, hrow⟩
  | health =>
      obtain ⟨-, rfl⟩ := Prod.mk.inj (Except.ok.inj hhandle)
      exact ⟨rfl, [], (List.append_nil _).symm, nofun⟩
  | hello | me | sync | api => cases hroute

/-- A request keeps the site sound. -/
theorem Site.Sound.handle (hcolumn : CreatorColumn pg) (h : site.Sound jwt compare)
    (hallowed : request.Allowed jwt site)
    (hhandle : site.handle jwt compare request = .ok (reply, site')) :
    site'.Sound jwt compare := by
  cases hroute : request.route.isPublic with
  | true =>
      obtain ⟨htables, logins, hlogins, hnew⟩ := Site.handle_public hroute hhandle
      refine ⟨htables ▸ h.coherent, fun login hmem => ?_, fun login hmem => ?_⟩
      · rw [hlogins] at hmem
        rcases List.mem_append.mp hmem with hmem | hmem
        · exact h.checked login hmem
        · exact (hnew login hmem).1
      · rw [hlogins] at hmem
        rcases List.mem_append.mp hmem with hmem | hmem
        · exact h.canonical login hmem
        · exact hallowed.canonical.users _ _ (hnew login hmem).2
  | false =>
      obtain ⟨login, -, hserves⟩ := h.serves hcolumn hallowed hroute hhandle
      refine ⟨(hserves.stays.within h.coherent).1, ?_, ?_⟩
      · rw [hserves.logins]
        exact h.checked
      · rw [hserves.logins]
        exact h.canonical

/-- Logins stay known. -/
theorem Site.Sound.subset_logins (hcolumn : CreatorColumn pg) (h : site.Sound jwt compare)
    (hallowed : request.Allowed jwt site)
    (hhandle : site.handle jwt compare request = .ok (reply, site')) :
    site.logins ⊆ site'.logins := by
  cases hroute : request.route.isPublic with
  | true =>
      obtain ⟨-, logins, hlogins, -⟩ := Site.handle_public hroute hhandle
      rw [hlogins]
      exact List.subset_append_left _ _
  | false =>
      obtain ⟨login, -, hserves⟩ := h.serves hcolumn hallowed hroute hhandle
      exact hserves.logins ▸ List.Subset.refl _

end FlowLogix.Server
