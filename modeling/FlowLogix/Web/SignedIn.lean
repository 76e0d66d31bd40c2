/-
  Web/SignedIn.lean --- the session of a browser
  (frontend/src/api/session.ts, http.ts, authApi.ts and components/auth/AuthGate.tsx).

  A browser keeps the token of its login beside the user it shows, sends the token with
  every request, and drops both when the server does not accept it.  Other clients send
  what they like.  Each request that is served acts for a login with the right password;
  those of the browser act for the organization of the user it shows.
-/
import FlowLogix.Foundation.Steps
import FlowLogix.Server.Auth

set_option autoImplicit false

namespace FlowLogix.Web

open FlowLogix.Foundation FlowLogix.Server

variable {pg : Postgres}

/-! ## The session -/

/-- `AuthUserSession`. -/
structure AuthUserSession where
  id : JsString
  orgId : JsString
  email : JsString
  firstName : JsString
  lastName : JsString
  deriving DecidableEq

/-- The session of a user the server tells of. -/
def AuthUserSession.of (id : JsString) (user : SafeUser) : AuthUserSession where
  id := id
  orgId := user.orgId
  email := user.email
  firstName := user.firstName
  lastName := user.lastName

/-- What the browser stores, under two keys. -/
structure Browser where
  token : Option JsString
  user : Option AuthUserSession
  deriving DecidableEq

namespace Browser

/-- `clearSession`. -/
def clearSession : Browser where
  token := none
  user := none

/-- `setSession`. -/
def setSession (token : JsString) (user : AuthUserSession) : Browser where
  token := some token
  user := some user

/-- The token `apiRequest` sends; an empty one is none. -/
def accessToken (browser : Browser) : Option JsString := browser.token.filter (· ≠ [])

/-- `readStoredSession`. -/
def readStoredSession (browser : Browser) : Option AuthUserSession :=
  browser.accessToken.bind fun _ => browser.user

end Browser

/-- The server and one browser. -/
structure SignedIn (pg : Postgres) where
  site : Site pg
  browser : Browser

/-- What happens. -/
inductive SessionAction where
  /-- `login` of the API, from the login screen -/
  | signIn (email password : JsString) (now : Int)
  /-- `AuthGate` as the page loads -/
  | load (now : Int)
  | send (route : Request) (now : Int)
  | logout
  /-- any other client -/
  | other (request : HttpRequest)

/-- A request with the token of the browser. -/
def bearerRequest (token : JsString) (now : Int) (route : Route) : HttpRequest where
  authorization := some (js "Bearer " ++ token)
  now := now
  route := route

namespace SignedIn

variable (jwt : Jwt) (compare : JsString → JsString → Bool)

/-- `apiRequest`: without a token nothing is sent, and a token that is refused is
dropped. -/
def apiRequest (s : SignedIn pg) (now : Int) (route : Route)
    (answered : JsString → Reply pg → Browser) (failed : Browser) : SignedIn pg :=
  match s.browser.accessToken with
  | none => { s with browser := failed }
  | some token =>
      match s.site.handle jwt compare (bearerRequest token now route) with
      | .ok (reply, site) => { site := site, browser := answered token reply }
      | .error (.unauthorized _) => { s with browser := .clearSession }
      | .error (.failed _) => { s with browser := failed }

/-- One step. -/
def step (s : SignedIn pg) : SessionAction → Option (SignedIn pg)
  | .signIn email password now =>
      match s.site.handle jwt compare
        { authorization := none, now := now, route := .login email password } with
      | .ok (.token token id user, site) =>
          some { site := site, browser := .setSession token (.of id user) }
      | _ => some s
  | .load now =>
      match s.browser.readStoredSession with
      | none => some s
      | some _ => some (s.apiRequest jwt compare now .me (fun token reply =>
          match reply with
          | .profile id user => .setSession token (.of id user)
          | _ => s.browser) .clearSession)
  | .send route now =>
      some (s.apiRequest jwt compare now (.api route) (fun _ _ => s.browser) s.browser)
  | .logout => some { s with browser := .clearSession }
  | .other request =>
      match s.site.handle jwt compare request with
      | .ok (_, site) => some { s with site := site }
      | .error _ => some s

end SignedIn

/-! ## The token and the user -/

variable {jwt : Jwt} {compare : JsString → JsString → Bool} {s s' : SignedIn pg}

/-- A token carries one payload. -/
theorem payload_eq_of_sign {payload payload' : JwtPayload} {issued issued' : Int}
    (h : jwt.sign payload issued = jwt.sign payload' issued') : payload = payload' := by
  -- both verify before the first of them expires
  have hverify := jwt.verify_sign payload issued (min issued issued' + jwt.lifetime - 1)
  rw [h, jwt.verify_sign, if_pos (by omega), if_pos (by omega)] at hverify
  exact (Option.some.inj hverify).symm

/-- A browser and the login its session is from. -/
def Browser.Holds (browser : Browser) (login : Login) : Prop :=
  browser.token = some login.token ∧ ∃ user, browser.user = some user ∧ user.id = login.id ∧
    user.orgId = login.user.orgId

/-- The session of the browser is from a login of the server, and the server is sound. -/
structure SignedIn.Sound (jwt : Jwt) (compare : JsString → JsString → Bool) (s : SignedIn pg) :
    Prop where
  site : s.site.Sound jwt compare
  browser : s.browser = .clearSession ∨ ∃ login ∈ s.site.logins, s.browser.Holds login

namespace SignedIn.Sound

/-- A browser that has a token has the session of a login. -/
theorem holds (h : s.Sound jwt compare) {token : JsString}
    (htoken : s.browser.accessToken = some token) :
    ∃ login ∈ s.site.logins, s.browser.Holds login ∧ login.token = token := by
  obtain ⟨hstored, -⟩ := Option.filter_eq_some_iff.mp htoken
  rcases h.browser with hclear | ⟨login, hlogin, hholds⟩
  · rw [hclear] at hstored
    cases hstored
  · exact ⟨login, hlogin, hholds, Option.some.inj (hholds.1.symm.trans hstored)⟩

/-- The browser's header is read as its token. -/
theorem bearer (h : s.Sound jwt compare) {token : JsString}
    (htoken : s.browser.accessToken = some token) (now : Int) (route : Route) :
    JwtAuthGuard.bearerToken (bearerRequest token now route).authorization = some token := by
  obtain ⟨login, hlogin, -, rfl⟩ := h.holds htoken
  have hword := jwt.sign_word
    { sub := login.id, orgId := login.user.orgId, email := login.user.email } login.issued
  rw [← (h.site.checked login hlogin).signed] at hword
  exact JwtAuthGuard.bearerToken_bearer hword

/-- The browser signs nothing itself. -/
theorem allowed (h : s.Sound jwt compare) {token : JsString} {now : Int} {route : Route}
    (htoken : s.browser.accessToken = some token)
    (haccepted : ∀ request, route = .api request → request.Accepted)
    (hcanonical : Canonical s.site.tables) :
    (bearerRequest token now route).Allowed jwt s.site where
  accepted := haccepted
  canonical := hcanonical
  unforged sent payload hsent _ := by
    obtain ⟨login, hlogin, -, htokens⟩ := h.holds htoken
    exact ⟨login, hlogin, htokens.trans (Option.some.inj ((h.bearer htoken now route).symm.trans
      hsent))⟩

/-- What is served to the browser is served to the user it shows. -/
theorem serves (hcolumn : CreatorColumn pg) (h : s.Sound jwt compare) {token : JsString}
    {now : Int} {route : Route} {reply : Reply pg} {site : Site pg}
    (htoken : s.browser.accessToken = some token)
    (hallowed : (bearerRequest token now route).Allowed jwt s.site)
    (hroute : route.isPublic = false)
    (hhandle : s.site.handle jwt compare (bearerRequest token now route) = .ok (reply, site)) :
    ∃ login ∈ s.site.logins, s.browser.Holds login ∧
      login.Serves jwt compare (bearerRequest token now route) s.site reply site := by
  obtain ⟨login, hlogin, hserves⟩ := h.site.serves hcolumn hallowed hroute hhandle
  obtain ⟨held, hheld, ⟨hstored, user, huser, hid, horg⟩, htokens⟩ := h.holds htoken
  refine ⟨login, hlogin, ⟨?_, user, huser, ?_⟩, hserves⟩
  all_goals have heq : held.token = login.token :=
    htokens.trans (Option.some.inj ((h.bearer htoken now route).symm.trans hserves.bearer))
  · rw [hstored, heq]
  · rw [(h.site.checked held hheld).signed, hserves.checked.signed] at heq
    have hpayload := payload_eq_of_sign heq
    exact ⟨hid.trans (congrArg JwtPayload.sub hpayload),
      horg.trans (congrArg JwtPayload.orgId hpayload)⟩

/-- The browser after a request. -/
theorem apiRequest (hcolumn : CreatorColumn pg) (h : s.Sound jwt compare) {now : Int}
    {route : Route} {answered : JsString → Reply pg → Browser} {failed : Browser}
    (haccepted : ∀ request, route = .api request → request.Accepted)
    (hcanonical : Canonical s.site.tables)
    (hroute : route.isPublic = false)
    (hanswered : ∀ token reply site, ∀ login ∈ s.site.logins,
      s.site.handle jwt compare (bearerRequest token now route) = .ok (reply, site) →
        s.browser.Holds login → login.token = token →
        login.Serves jwt compare (bearerRequest token now route) s.site reply site →
          (answered token reply).Holds login)
    (hfailed : failed = .clearSession ∨ failed = s.browser) :
    (s.apiRequest jwt compare now route answered failed).Sound jwt compare := by
  have hkept : ({ s with browser := failed } : SignedIn pg).Sound jwt compare :=
    ⟨h.site, hfailed.elim Or.inl fun heq => heq ▸ h.browser⟩
  unfold SignedIn.apiRequest
  split
  · exact hkept
  · rename_i token htoken
    have hallowed : (bearerRequest token now route).Allowed jwt s.site :=
      h.allowed htoken haccepted hcanonical
    split
    · rename_i reply site hhandle
      obtain ⟨login, hlogin, hholds, hserves⟩ := h.serves hcolumn htoken hallowed hroute hhandle
      refine ⟨h.site.handle hcolumn hallowed hhandle, Or.inr ⟨login, ?_, ?_⟩⟩
      · exact h.site.subset_logins hcolumn hallowed hhandle hlogin
      · refine hanswered token reply site login hlogin hhandle hholds ?_ hserves
        exact Option.some.inj (hserves.bearer.symm.trans (h.bearer htoken now route))
    · exact ⟨h.site, Or.inl rfl⟩
    · exact hkept

end SignedIn.Sound

/-! ## Runs -/

/-- What is left to the clients, the store and the secret: the browser makes up no
token. -/
def SessionAction.Allowed (jwt : Jwt) (s : SignedIn pg) : SessionAction → Prop
  | .send route _ => route.Accepted ∧ Canonical s.site.tables
  | .other request => request.Allowed jwt s.site
  | _ => Canonical s.site.tables

/-- A step keeps the browser's session and the server together. -/
theorem SignedIn.Sound.step (hcolumn : CreatorColumn pg) (h : s.Sound jwt compare)
    {action : SessionAction} (hallowed : action.Allowed jwt s)
    (hstep : s.step jwt compare action = some s') : s'.Sound jwt compare := by
  cases action with
  | signIn email password now =>
      have hcanonical : Canonical s.site.tables := hallowed
      simp only [SignedIn.step] at hstep
      split at hstep
      · rename_i token id user site hhandle
        obtain rfl := Option.some.inj hstep
        have hrequest : HttpRequest.Allowed jwt s.site
            { authorization := none, now := now, route := .login email password } := by
          refine ⟨fun request hrequest => ?_, hcanonical, fun token payload htoken => ?_⟩
          · cases hrequest
          · cases htoken
        have hsite : site.Sound jwt compare := h.site.handle hcolumn hrequest hhandle
        obtain ⟨token', id', user', -, hreply, rfl⟩ := Site.handle_login hhandle
        obtain ⟨rfl, rfl, rfl⟩ := Reply.token.inj hreply
        refine ⟨hsite, Or.inr ⟨_, List.mem_append_right _ (List.mem_singleton.mpr rfl), rfl, ?_⟩⟩
        exact ⟨_, rfl, rfl, rfl⟩
      · exact Option.some.inj hstep ▸ h
  | load now =>
      have hcanonical : Canonical s.site.tables := hallowed
      simp only [SignedIn.step] at hstep
      split at hstep
      · exact Option.some.inj hstep ▸ h
      · obtain rfl := Option.some.inj hstep
        refine h.apiRequest hcolumn (fun request hrequest => ?_) hcanonical rfl ?_ (Or.inl rfl)
        · cases hrequest
        · intro token reply site login hlogin hhandle hholds htoken hserves
          obtain ⟨user, rfl, horg⟩ :=
            hserves.profile (h.site.canonical login hlogin).1 rfl hhandle
          exact ⟨congrArg some htoken.symm, _, rfl, rfl, horg⟩
  | send route now =>
      obtain ⟨haccepted, hcanonical⟩ : route.Accepted ∧ Canonical s.site.tables := hallowed
      obtain rfl := Option.some.inj hstep
      refine h.apiRequest hcolumn (fun request hrequest => ?_) hcanonical rfl ?_ (Or.inr rfl)
      · exact Route.api.inj hrequest ▸ haccepted
      · intro _ _ _ login _ _ hholds _ _
        exact hholds
  | logout =>
      obtain rfl := Option.some.inj hstep
      exact ⟨h.site, Or.inl rfl⟩
  | other request =>
      have hrequest : request.Allowed jwt s.site := hallowed
      simp only [SignedIn.step] at hstep
      split at hstep
      · rename_i reply site hhandle
        obtain rfl := Option.some.inj hstep
        refine ⟨h.site.handle hcolumn hrequest hhandle, ?_⟩
        refine h.browser.imp id fun hlogin => ?_
        obtain ⟨login, hmem, hholds⟩ := hlogin
        exact ⟨login, h.site.subset_logins hcolumn hrequest hhandle hmem, hholds⟩
      · exact Option.some.inj hstep ▸ h

/-- Whom a served request acts for: one of the browser for the user it shows, one of
another client for a login whose token it carries.  A public request changes no row. -/
def SessionAction.ActsFor (jwt : Jwt) (compare : JsString → JsString → Bool) (s : SignedIn pg) :
    SessionAction → Prop
  | .send route now => ∀ token reply site, s.browser.accessToken = some token →
      s.site.handle jwt compare (bearerRequest token now (.api route)) = .ok (reply, site) →
        ∃ user, s.browser.user = some user ∧
          Tables.Stays user.orgId s.site.tables reply.records site.tables
  | .other request => ∀ reply site, s.site.handle jwt compare request = .ok (reply, site) →
      if request.route.isPublic then site.tables = s.site.tables
      else ∃ login ∈ s.site.logins, login.Serves jwt compare request s.site reply site
  | _ => True

/-- **Nobody acts for an organization without a login of it.** Whatever the clients send and
in whatever order, a request that is served changes no row if its route is public; and else
it carries an unexpired token of a login with the right password, by a user that was active,
and tells of and changes rows of that user's organization only, or of an organization it
has just made.  For the browser that is the organization of the user it shows. -/
theorem SignedIn.requests_act_for_logins (hcolumn : CreatorColumn pg) {start : SignedIn pg}
    {trace : List (SignedIn pg × SessionAction)}
    (run : Steps (SignedIn.step jwt compare) start trace s)
    (hstart : start.site.tables.Coherent ∧ start.site.logins = [] ∧
      start.browser = .clearSession) (hallowed : ∀ e ∈ trace, e.2.Allowed jwt e.1) :
    s.site.tables.Coherent ∧ ∀ e ∈ trace, e.2.ActsFor jwt compare e.1 := by
  obtain ⟨hcoherent, hlogins, hclear⟩ := hstart
  have hsound : start.Sound jwt compare := by
    refine ⟨⟨hcoherent, ?_, ?_⟩, Or.inl hclear⟩
    · rw [hlogins]
      exact fun login hmem => absurd hmem List.not_mem_nil
    · rw [hlogins]
      exact fun login hmem => absurd hmem List.not_mem_nil
  have hsteps := @Steps.everywhere _ _ _ _ _ _ (SignedIn.Sound jwt compare)
    (fun s action => action.Allowed jwt s) run hallowed hsound
    fun s action s' hok h hstep => h.step hcolumn hok hstep
  refine ⟨hsteps.2.site.coherent, fun e he => ?_⟩
  obtain ⟨before, action⟩ := e
  have h : before.Sound jwt compare := hsteps.1 _ he
  have hok : action.Allowed jwt before := hallowed _ he
  cases action with
  | send route now =>
      obtain ⟨haccepted, hcanonical⟩ : route.Accepted ∧ Canonical before.site.tables := hok
      intro token reply site htoken hhandle
      have hrequest : (bearerRequest token now (.api route)).Allowed jwt before.site :=
        h.allowed htoken (fun request heq => Route.api.inj heq ▸ haccepted) hcanonical
      obtain ⟨login, -, ⟨-, user, huser, -, horg⟩, hserves⟩ :=
        h.serves hcolumn htoken hrequest rfl hhandle
      exact ⟨user, huser, horg ▸ hserves.stays⟩
  | other request =>
      intro reply site hhandle
      cases hroute : request.route.isPublic with
      | true => exact (Site.handle_public hroute hhandle).1
      | false => exact h.site.serves hcolumn hok hroute hhandle
  | signIn email password now => trivial
  | load now => trivial
  | logout => trivial

/-! ### One browser -/

namespace SignInRun

/-- Each code unit as two that are no blanks. -/
def spell (text : JsString) : JsString :=
  text.flatMap fun u => [Fin.ofNat 65536 (256 + u.val / 256), Fin.ofNat 65536 (256 + u.val % 256)]

def unspell : JsString → JsString
  | high :: low :: rest =>
      Fin.ofNat 65536 ((high.val - 256) * 256 + (low.val - 256)) :: unspell rest
  | _ => []

theorem val_ofNat_add {n : ℕ} (h : n < 256) : (Fin.ofNat 65536 (256 + n)).val = 256 + n :=
  Nat.mod_eq_of_lt (by omega)

theorem unspell_spell (text : JsString) : unspell (spell text) = text := by
  induction text with
  | nil => rfl
  | cons u text ih =>
      have hu := u.isLt
      have hhigh := val_ofNat_add (show u.val / 256 < 256 by omega)
      have hlow := val_ofNat_add (show u.val % 256 < 256 by omega)
      show Fin.ofNat 65536 (((Fin.ofNat 65536 (256 + u.val / 256)).val - 256) * 256 +
        ((Fin.ofNat 65536 (256 + u.val % 256)).val - 256)) :: unspell (spell text) = u :: text
      rw [ih, hhigh, hlow]
      refine congrArg (· :: text) (Fin.ext ?_)
      show ((256 + u.val / 256 - 256) * 256 + (256 + u.val % 256 - 256)) % 65536 = u.val
      omega

theorem mem_spell {text : JsString} {v : CodeUnit} (h : v ∈ spell text) :
    256 ≤ v.val ∧ v.val < 512 := by
  obtain ⟨u, -, hv⟩ := List.mem_flatMap.mp h
  have hu := u.isLt
  rcases List.mem_pair.mp hv with rfl | rfl
  · rw [val_ofNat_add (by omega)]
    omega
  · rw [val_ofNat_add (by omega)]
    omega

/-- A number, by its sign and as many strokes. -/
def strokes (n : Int) : JsString :=
  (if n < 0 then 0x401 else 0x402) :: List.replicate n.natAbs 0x403

def unstrokes : JsString → Int
  | sign :: rest => if sign = 0x401 then -rest.length else rest.length
  | [] => 0

theorem unstrokes_strokes (n : Int) : unstrokes (strokes n) = n := by
  rw [strokes, unstrokes, List.length_replicate]
  by_cases hn : n < 0
  · rw [if_pos hn, if_pos rfl]
    omega
  · rw [if_neg hn, if_neg (by decide)]
    omega

theorem mem_strokes {n : Int} {v : CodeUnit} (h : v ∈ strokes n) :
    0x401 ≤ v.val ∧ v.val ≤ 0x403 := by
  rcases List.mem_cons.mp h with rfl | h
  · split <;> decide
  · rw [List.eq_of_mem_replicate h]
    decide

/-- A token that spells its payload and its time. -/
def spelled (payload : JwtPayload) (issued : Int) : JsString :=
  spell payload.sub ++ 0x400 :: (spell payload.orgId ++ 0x400 :: (spell payload.email ++
    0x400 :: strokes issued))

theorem splitOn_spelled (payload : JwtPayload) (issued : Int) :
    (spelled payload issued).splitOn 0x400 =
      [spell payload.sub, spell payload.orgId, spell payload.email, strokes issued] := by
  have hspell : ∀ text : JsString, ∀ v ∈ spell text, v ≠ 0x400 := by
    rintro text v hv rfl
    exact absurd (mem_spell hv).2 (by decide)
  have hstrokes : ∀ v ∈ strokes issued, v ≠ 0x400 := by
    rintro v hv rfl
    exact absurd (mem_strokes hv).1 (by decide)
  have hnot : ∀ {text : JsString}, (∀ v ∈ text, v ≠ 0x400) → 0x400 ∉ text :=
    fun h hmem => h _ hmem rfl
  rw [spelled, List.splitOn_append_cons_self_of_not_mem (hnot (hspell _)),
    List.splitOn_append_cons_self_of_not_mem (hnot (hspell _)),
    List.splitOn_append_cons_self_of_not_mem (hnot (hspell _)),
    List.splitOn_eq_singleton (hnot hstrokes)]

/-- Tokens that anybody can read. -/
def letters : Jwt where
  sign := spelled
  verify token now :=
    match token.splitOn 0x400 with
    | [sub, orgId, email, issued] =>
        if now < unstrokes issued + 3600 then
          some { sub := unspell sub, orgId := unspell orgId, email := unspell email }
        else none
    | _ => none
  lifetime := 3600
  verify_sign payload issued now := by
    rw [splitOn_spelled]
    simp only [unspell_spell, unstrokes_strokes]
  sign_word payload issued := by
    have hhigh : ∀ u : CodeUnit, 256 ≤ u.val ∧ u.val ≤ 0x403 → isWhiteSpace u = false := by
      intro u hu
      unfold isWhiteSpace
      simp
      omega
    refine ⟨by simp [spelled], fun u hu => hhigh u ?_⟩
    have hspell : ∀ {text : JsString}, u ∈ spell text → 256 ≤ u.val ∧ u.val ≤ 0x403 := by
      intro text hmem
      have := mem_spell hmem
      omega
    have hstrokes : u ∈ strokes issued → 256 ≤ u.val ∧ u.val ≤ 0x403 := by
      intro hmem
      have := mem_strokes hmem
      omega
    have hblank : u = 0x400 → 256 ≤ u.val ∧ u.val ≤ 0x403 := by
      rintro rfl
      decide
    simp only [spelled, List.mem_append, List.mem_cons] at hu
    rcases hu with hu | hu | hu | hu | hu | hu | hu
    · exact hspell hu
    · exact hblank hu
    · exact hspell hu
    · exact hblank hu
    · exact hspell hu
    · exact hblank hu
    · exact hstrokes hu

/-- Passwords in clear. -/
def inClear (password hash : JsString) : Bool := password = hash

/-- A user of the organization. -/
def user : User where
  orgId := Sample.orgId
  email := js "ann"
  passwordHash := js "secret"
  firstName := js "Ann"
  lastName := js "B"
  avatarUrl := none
  timezone := js "UTC"
  locale := js "en"
  isActive := true

/-- The organization and its user. -/
def tables : Tables Postgres.plain :=
  TwoTenants.start.set (.user TwoTenants.userId) user

def start : SignedIn Postgres.plain where
  site := { tables := tables, lastMicros := 0, logins := [] }
  browser := .clearSession

/-- What the user's token carries. -/
def payload : JwtPayload where
  sub := TwoTenants.userId
  orgId := Sample.orgId
  email := js "ann"

/-- The browser after the login. -/
def signedIn : SignedIn Postgres.plain where
  site :=
    { tables := tables
      lastMicros := 0
      logins :=
        [{ token := letters.sign payload 5
           id := TwoTenants.userId
           user := user
           password := js "secret"
           issued := 5 }] }
  browser := .setSession (letters.sign payload 5) (.of TwoTenants.userId user.withoutHash)

theorem step_signIn :
    start.step letters inClear (.signIn (js "ann") (js "secret") 5) = some signedIn := rfl

theorem coherent_tables : tables.Coherent := by
  refine (@Tables.within_set Postgres.plain TwoTenants.start (.user TwoTenants.userId) user
    Sample.orgId rfl (fun o ho => ?_) (fun s hs => ?_) TwoTenants.start_coherent).1
  · cases ho
  · cases hs
    exact Option.map_eq_some_iff.mpr ⟨_, rfl, rfl⟩

theorem canonical_tables : Canonical tables where
  users _ _ _ := ⟨rfl, rfl⟩
  rows _ _ _ := rfl

/-- The organization's users, as the server sends them to the browser. -/
theorem handle_findUsers :
    signedIn.site.handle letters inClear
      (bearerRequest (letters.sign payload 5) 10 (.api .findUsers)) =
        .ok (.response (.users [(TwoTenants.userId, user)]), signedIn.site) := by
  unfold Site.handle
  show (JwtAuthGuard.canActivate letters (some (js "Bearer " ++ letters.sign payload 5)) 10 >>=
    _) = _
  rw [JwtAuthGuard.canActivate_bearer letters payload (by decide)]
  rfl

end SignInRun

/-- A user signs in and loads the users of the organization. -/
theorem requests_act_for_logins_one : ∃ user, SignInRun.signedIn.browser.user = some user ∧
    user.orgId = Sample.orgId ∧
      Tables.Stays user.orgId SignInRun.tables [.user TwoTenants.userId] SignInRun.tables := by
  have hsigned : SignInRun.signedIn.browser.accessToken =
      some (SignInRun.letters.sign SignInRun.payload 5) := by
    exact Option.filter_some_pos (decide_eq_true (List.cons_ne_nil _ _))
  have hsend : SignInRun.signedIn.step SignInRun.letters SignInRun.inClear
      (.send .findUsers 10) = some SignInRun.signedIn := by
    simp only [SignedIn.step, SignedIn.apiRequest, hsigned, SignInRun.handle_findUsers]
  have run := (Steps.none.next SignInRun.step_signIn).next hsend
  have hallowed : ∀ e ∈ [] ++ [(SignInRun.start, SessionAction.signIn (js "ann") (js "secret") 5)]
      ++ [(SignInRun.signedIn, SessionAction.send .findUsers 10)],
      e.2.Allowed SignInRun.letters e.1 := by
    intro e he
    rcases List.mem_pair.mp he with rfl | rfl
    · exact SignInRun.canonical_tables
    · exact ⟨trivial, SignInRun.canonical_tables⟩
  obtain ⟨-, hacts⟩ := SignedIn.requests_act_for_logins TwoTenants.plain_creatorColumn run
    ⟨SignInRun.coherent_tables, rfl, rfl⟩ hallowed
  obtain ⟨user, huser, hstays⟩ := hacts (SignInRun.signedIn, .send .findUsers 10)
    (List.mem_append_right _ (List.mem_singleton.mpr rfl)) _ _ _ hsigned SignInRun.handle_findUsers
  exact ⟨user, huser, Option.some.inj huser ▸ rfl, hstays⟩

end FlowLogix.Web
