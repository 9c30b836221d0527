import TopicCipher.Proofs.Blank
import TopicCipher.Vault.Http

/-!
# Settings and the requests they stand for

Two things are read off the settings of a connection over HTTP: how it is authenticated, and which
requests it makes.  Both are said here without regard to the functions that find them out.  Exactly
one kind of credentials has to be given.  A request goes to the address of the settings, below which
the interface has a place for logins and one for each secret; what a user writes into the settings
may have slashes where the parts are joined, and they do not count there.

* `AuthSettings.resolve_eq_ok_iff`, `AuthSettings.resolve_eq_error_iff`: which credentials are
  named, and what is wrong with those that are rejected.
* `isLogin_loginRequest`, `isRead_readRequest`: the requests of a session.
-/

namespace TopicCipher.Vault

/-! ## Credentials -/

namespace AuthSettings

/-- The setting is there, and it is not blank. -/
def Given (setting : Option String) (text : String) : Prop :=
  setting = some text ∧ Text.isBlankText text = false

/-- The setting is not there, or it is blank. -/
def Missing (setting : Option String) : Prop := ∀ text, ¬ Given setting text

/-- The settings name credentials: a token or a role, and not both. -/
inductive Names (s : AuthSettings) : Auth → Prop where
  | token {token : String} (htoken : Given s.token token) (hrole : Missing s.roleId)
      (hsecret : Missing s.secretId) : Names s (.token token)
  | role {roleId secretId : String} (htoken : Missing s.token) (hrole : Given s.roleId roleId)
      (hsecret : Given s.secretId secretId) : Names s (.role roleId secretId)

/-- What is wrong with settings that name no credentials. -/
inductive Lacks (s : AuthSettings) : ConfigurationFault → Prop where
  | tokenAndRole {token part : String} (htoken : Given s.token token)
      (hpart : Given s.roleId part ∨ Given s.secretId part) : Lacks s .tokenAndRole
  | halfRole {part : String} (htoken : Missing s.token)
      (hpart : Given s.roleId part ∧ Missing s.secretId ∨
        Missing s.roleId ∧ Given s.secretId part) :
      Lacks s .halfRole
  | noCredentials (htoken : Missing s.token) (hrole : Missing s.roleId)
      (hsecret : Missing s.secretId) : Lacks s .noCredentials

theorem filled_eq_some_iff {setting : Option String} {text : String} :
    filled setting = some text ↔ Given setting text := by
  rw [filled, Option.filter_eq_some_iff, Given, Bool.not_eq_eq_eq_not, Bool.not_true]

theorem filled_eq_none_iff {setting : Option String} : filled setting = none ↔ Missing setting := by
  rw [Option.eq_none_iff_forall_ne_some]
  exact forall_congr' fun text => not_congr filled_eq_some_iff

variable {s : AuthSettings}

/-- **The credentials are those that the settings name.** -/
theorem resolve_eq_ok_iff {auth : Auth} : s.resolve = .ok auth ↔ s.Names auth := by
  constructor
  · intro h
    rw [resolve] at h
    split at h
    next token htoken hrole hsecret =>
      obtain rfl := Except.ok.inj h
      exact .token (filled_eq_some_iff.mp htoken) (filled_eq_none_iff.mp hrole)
        (filled_eq_none_iff.mp hsecret)
    next roleId secretId htoken hrole hsecret =>
      obtain rfl := Except.ok.inj h
      exact .role (filled_eq_none_iff.mp htoken) (filled_eq_some_iff.mp hrole)
        (filled_eq_some_iff.mp hsecret)
    all_goals exact absurd h (by simp)
  · intro h
    cases h with
    | token htoken hrole hsecret =>
      rw [resolve, filled_eq_some_iff.mpr htoken, filled_eq_none_iff.mpr hrole,
        filled_eq_none_iff.mpr hsecret]
    | role htoken hrole hsecret =>
      rw [resolve, filled_eq_none_iff.mpr htoken, filled_eq_some_iff.mpr hrole,
        filled_eq_some_iff.mpr hsecret]

/-- **Credentials are rejected for what is wrong with the settings.** -/
theorem resolve_eq_error_iff {fault : ConfigurationFault} :
    s.resolve = .error fault ↔ s.Lacks fault := by
  have hfilled (setting : Option String) :
      (∃ text, filled setting = some text ∧ Given setting text) ∨
        filled setting = none ∧ Missing setting := by
    rcases h : filled setting with _ | text
    · exact .inr ⟨rfl, filled_eq_none_iff.mp h⟩
    · exact .inl ⟨text, rfl, filled_eq_some_iff.mp h⟩
  constructor
  · intro h
    rw [resolve] at h
    rcases hfilled s.token with ⟨token, htoken, hgiven⟩ | ⟨htoken, hmissing⟩ <;>
      rcases hfilled s.roleId with ⟨roleId, hrole, hrole'⟩ | ⟨hrole, hrole'⟩ <;>
        rcases hfilled s.secretId with ⟨secretId, hsecret, hsecret'⟩ | ⟨hsecret, hsecret'⟩ <;>
          simp only [htoken, hrole, hsecret, Except.error.injEq, reduceCtorEq] at h
    · exact h ▸ .tokenAndRole hgiven (.inl hrole')
    · exact h ▸ .tokenAndRole hgiven (.inl hrole')
    · exact h ▸ .tokenAndRole hgiven (.inr hsecret')
    · exact h ▸ .halfRole hmissing (.inl ⟨hrole', hsecret'⟩)
    · exact h ▸ .halfRole hmissing (.inr ⟨hrole', hsecret'⟩)
    · exact h ▸ .noCredentials hmissing hrole' hsecret'
  · intro h
    cases h with
    | tokenAndRole htoken hpart =>
      rcases hpart with hrole | hsecret
      · rw [resolve, filled_eq_some_iff.mpr htoken, filled_eq_some_iff.mpr hrole]
      · rw [resolve, filled_eq_some_iff.mpr htoken, filled_eq_some_iff.mpr hsecret]
        cases filled s.roleId <;> rfl
    | halfRole htoken hpart =>
      rcases hpart with ⟨hrole, hsecret⟩ | ⟨hrole, hsecret⟩
      · rw [resolve, filled_eq_none_iff.mpr htoken, filled_eq_some_iff.mpr hrole,
          filled_eq_none_iff.mpr hsecret]
      · rw [resolve, filled_eq_none_iff.mpr htoken, filled_eq_none_iff.mpr hrole,
          filled_eq_some_iff.mpr hsecret]
    | noCredentials htoken hrole hsecret =>
      rw [resolve, filled_eq_none_iff.mpr htoken, filled_eq_none_iff.mpr hrole,
        filled_eq_none_iff.mpr hsecret]

end AuthSettings

/-! ## Slashes -/

/-- The second text is what comes after the slashes at the beginning of the first one. -/
def AfterSlashes (text rest : String) : Prop :=
  (∃ n, text.toList = List.replicate n '/' ++ rest.toList) ∧ rest.toList.head? ≠ some '/'

/-- The second text is what comes before the slashes at the end of the first one. -/
def BeforeSlashes (text rest : String) : Prop :=
  (∃ n, text.toList = rest.toList ++ List.replicate n '/') ∧ rest.toList.getLast? ≠ some '/'

/-- What is dropped in front are slashes, and none is left there. -/
theorem exists_eq_replicate_append (cs : List Char) :
    (∃ n, cs = List.replicate n '/' ++ cs.dropWhile (· = '/')) ∧
      (cs.dropWhile (· = '/')).head? ≠ some '/' := by
  constructor
  · refine ⟨(cs.takeWhile (· = '/')).length, ?_⟩
    have hslashes : cs.takeWhile (· = '/') = List.replicate (cs.takeWhile (· = '/')).length '/' :=
      List.eq_replicate_of_mem fun c hc => by simpa using List.mem_takeWhile_imp hc
    rw [← hslashes, List.takeWhile_append_dropWhile]
  · intro hhead
    have hnot := List.head?_dropWhile_not (· = '/') cs
    rw [hhead] at hnot
    exact absurd hnot (by simp)

theorem afterSlashes_ofList (text : String) :
    AfterSlashes text (String.ofList (HttpSession.dropSlashes text)) := by
  rw [AfterSlashes, String.toList_ofList]
  exact exists_eq_replicate_append text.toList

theorem beforeSlashes_ofList (text : String) :
    BeforeSlashes text (String.ofList (Text.dropEndWhile (· = '/') text.toList)) := by
  rw [BeforeSlashes, String.toList_ofList, Text.dropEndWhile]
  obtain ⟨⟨n, hn⟩, hhead⟩ := exists_eq_replicate_append text.toList.reverse
  refine ⟨⟨n, ?_⟩, ?_⟩
  · have hback := congrArg List.reverse hn
    rwa [List.reverse_reverse, List.reverse_append, List.reverse_replicate] at hback
  · rwa [List.getLast?_reverse]

/-! ## Requests -/

/-- The headers that all requests have. -/
def namespaceHeaders (o : HttpOptions) : List (String × String) :=
  (o.namespaceName.map ("X-Vault-Namespace", ·)).toList

/-- The request is a login with the credentials of a role, by the settings. -/
structure IsLogin (o : HttpOptions) (roleId secretId : String) (request : Request) : Prop where
  method : request.method = .post
  address : ∃ base, BeforeSlashes o.address base ∧
    request.address = base ++ "/v1/auth/approle/login"
  headers : request.headers = namespaceHeaders o
  body : request.body =
    some (.object [(some "role_id", .string roleId), (some "secret_id", .string secretId)])

/-- The request reads the newest version of the secret at a path with a token, by the settings. -/
structure IsRead (o : HttpOptions) (token path : String) (request : Request) : Prop where
  method : request.method = .get
  address : ∃ base front mount place, BeforeSlashes o.address base ∧
    AfterSlashes o.mount front ∧ BeforeSlashes front mount ∧ AfterSlashes path place ∧
      request.address = base ++ "/v1/" ++ mount ++ "/data/" ++ place
  headers : request.headers = ("X-Vault-Token", token) :: namespaceHeaders o
  body : request.body = none

variable (s : HttpSession)

/-- The request of a login. -/
def HttpSession.loginRequest (roleId secretId : String) : Request :=
  s.request .post HttpSession.loginPath []
    (some (.object [(some "role_id", .string roleId), (some "secret_id", .string secretId)]))

/-- The request of a read of the newest version. -/
def HttpSession.readRequest (token path : String) : Request :=
  s.request .get (s.dataPath path none) [(tokenHeader, token)] none

/-- **A login is the one that the settings stand for.** -/
theorem isLogin_loginRequest (roleId secretId : String) :
    IsLogin s.options roleId secretId (s.loginRequest roleId secretId) where
  method := rfl
  address := by
    refine ⟨_, beforeSlashes_ofList s.options.address, ?_⟩
    rw [← String.toList_inj, String.toList_append, String.toList_ofList]
    exact String.toList_ofList
  headers := List.nil_append _
  body := rfl

/-- **A read is the one that the settings stand for.** -/
theorem isRead_readRequest (token path : String) :
    IsRead s.options token path (s.readRequest token path) where
  method := rfl
  address := by
    refine ⟨_, _, _, _, beforeSlashes_ofList s.options.address,
      afterSlashes_ofList s.options.mount, beforeSlashes_ofList _, afterSlashes_ofList path, ?_⟩
    have htext (text : String) : toString text = text := rfl
    rw [← String.toList_inj]
    simp [htext, HttpSession.readRequest, HttpSession.request, HttpSession.address,
      HttpSession.dropSlashes, HttpSession.dataPath]
  headers := List.singleton_append
  body := rfl

end TopicCipher.Vault
