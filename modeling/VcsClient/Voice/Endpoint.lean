import VcsClient.Lib.HostPort

/-!
# The voice endpoint

`Resolve` of `internal/voice/endpoint.go`. What `url.Parse` gives as the host of a URL is
`urlHost`, `none` where it fails. The address is that of the first source that is not
empty, and it splits into a host and a port. A host of the configuration is joined with its
port as it is: in brackets it gets a second pair, and a port that an IPv6 address brings
along becomes part of it (`resolve_documented`).
-/

namespace VcsClient.Voice

open VcsClient.Lib

structure Sources where
  /-- `VoiceAddressUpdate.coalition_voice_addr` -/
  update : List Char
  /-- `ServerSyncResult.coalition_voice_addr` -/
  sync : List Char
  configHost : List Char
  configPort : ℤ
  serverURL : List Char

inductive ResolveError where
  /-- voice config host already includes a port -/
  | configHostHasPort (host : List Char)
  | invalidAddress (addr : List Char) (err : SplitError)
  | missingHost (addr : List Char)
  | missingPort (addr : List Char)
  | invalidURL (url : List Char)
  | noHost (url : List Char)
  /-- unbracketed IPv6 literals are not supported here -/
  | ambiguousHost (hostPort : List Char)
  /-- no voice server address available -/
  | noAddress
  deriving DecidableEq

def defaultVoicePort : ℤ := 5002

/-- `validateDialAddress`. -/
def validateDialAddress (addr : List Char) : Except ResolveError (List Char) :=
  match splitHostPort addr with
  | .error err => .error (.invalidAddress addr err)
  | .ok (host, port) =>
    if host = [] then .error (.missingHost addr)
    else if port = [] then .error (.missingPort addr)
    else .ok addr

/-- `stripPortOrHost`. -/
def stripPortOrHost (hostPort : List Char) : Except ResolveError (List Char) :=
  match splitHostPort hostPort with
  | .ok (host, _) => .ok host
  | .error _ =>
    if hostPort.head? = some '[' ∧ hostPort.getLast? = some ']' then .ok hostPort.tail.dropLast
    else if ':' ∈ hostPort then .error (.ambiguousHost hostPort)
    else .ok hostPort

/-- `extractHostFromURL`. -/
def extractHostFromURL (urlHost : List Char → Option (List Char)) (urlStr : List Char) :
    Except ResolveError (List Char) :=
  if contains "://".toList urlStr then
    match urlHost urlStr with
    | none => .error (.invalidURL urlStr)
    | some host => if host = [] then .error (.noHost urlStr) else stripPortOrHost host
  else
    let hostPort := urlStr.takeWhile (· ≠ '/')
    if hostPort = [] then .error (.noHost urlStr) else stripPortOrHost hostPort

/-- The fields with `TrimSpace` applied. -/
def Sources.trim (s : Sources) : Sources :=
  { s with
    update := trimSpace s.update
    sync := trimSpace s.sync
    configHost := trimSpace s.configHost
    serverURL := trimSpace s.serverURL }

/-- The port of a host of the configuration. -/
def Sources.port (s : Sources) : ℤ := if s.configPort = 0 then defaultVoicePort else s.configPort

/-- `Resolve`, once the fields are trimmed. -/
def resolveTrimmed (urlHost : List Char → Option (List Char)) (s : Sources) :
    Except ResolveError (List Char) :=
  if s.update ≠ [] then validateDialAddress s.update
  else if s.sync ≠ [] then validateDialAddress s.sync
  else if s.configHost ≠ [] then
    match splitHostPort s.configHost with
    | .ok _ => .error (.configHostHasPort s.configHost)
    | .error _ => validateDialAddress (joinHostPort s.configHost (itoa s.port))
  else if s.serverURL ≠ [] then
    match extractHostFromURL urlHost s.serverURL with
    | .error err => .error err
    | .ok host =>
      if host ≠ [] then validateDialAddress (joinHostPort host (itoa defaultVoicePort))
      else .error .noAddress
  else .error .noAddress

/-- `Resolve`. -/
def resolve (urlHost : List Char → Option (List Char)) (s : Sources) :
    Except ResolveError (List Char) := resolveTrimmed urlHost s.trim

/-! ## What is documented -/

/-- A name or an IPv4 address. -/
def IsName (h : List Char) : Prop := h ≠ [] ∧ Plain h

def IsPort (p : List Char) : Prop := p ≠ [] ∧ ∀ c ∈ p, c.isDigit = true

/-- How a host is written where a port may follow. -/
inductive HostText : List Char → List Char → Prop where
  | name {h} (hname : IsName h) : HostText h h
  | bracketed {h} (hv6 : IsIPv6 h) : HostText ('[' :: h ++ [']']) h

/-- An IPv6 address with a port and no brackets. -/
def AmbiguousText (t : List Char) : Prop := ∃ h p, IsIPv6 h ∧ IsPort p ∧ t = h ++ ':' :: p

/-- What is before the path of a server URL. -/
def authority (urlHost : List Char → Option (List Char)) (urlStr : List Char) :
    Option (List Char) :=
  if contains "://".toList urlStr then urlHost urlStr else some (urlStr.takeWhile (· ≠ '/'))

/-- The source that the address is taken from, of trimmed fields. -/
inductive Origin where
  | update
  | sync
  | config
  | serverURL
  deriving DecidableEq

def Sources.origin (s : Sources) : Origin :=
  if s.update ≠ [] then .update
  else if s.sync ≠ [] then .sync
  else if s.configHost ≠ [] then .config
  else .serverURL

/-- **The documented forms**, with the host and the port they stand for: an address of the
server has its port with it, a host of the configuration has it apart, and that of a server
URL is not the voice port. -/
inductive Documented (urlHost : List Char → Option (List Char)) (s : Sources) :
    List Char → List Char → Prop where
  | update {t h p} (horigin : s.origin = .update) (ht : HostText t h) (hp : IsPort p)
    (htext : s.update = t ++ ':' :: p) : Documented urlHost s h p
  | sync {t h p} (horigin : s.origin = .sync) (ht : HostText t h) (hp : IsPort p)
    (htext : s.sync = t ++ ':' :: p) : Documented urlHost s h p
  | config {h} (horigin : s.origin = .config) (ht : HostText s.configHost h) :
    Documented urlHost s h (itoa s.port)
  | configBare (horigin : s.origin = .config) (hv6 : IsIPv6 s.configHost)
    (hport : s.configPort ≠ 0) : Documented urlHost s s.configHost (itoa s.port)
  | serverURL {a t h} (horigin : s.origin = .serverURL) (hne : s.serverURL ≠ [])
    (ha : authority urlHost s.serverURL = some a) (ht : HostText t h)
    (htext : a = t ∨ ∃ p, IsPort p ∧ a = t ++ ':' :: p) :
    Documented urlHost s h (itoa defaultVoicePort)

/-- An IPv6 address with a port and no brackets, where both could be in the text. -/
def Ambiguous (urlHost : List Char → Option (List Char)) (s : Sources) : Prop :=
  match s.origin with
  | .update => AmbiguousText s.update
  | .sync => AmbiguousText s.sync
  | .config => s.configPort = 0 ∧ AmbiguousText s.configHost
  | .serverURL => ∃ a, authority urlHost s.serverURL = some a ∧ AmbiguousText a

/-- The address is made of the source's own text. -/
def TakenFrom (urlHost : List Char → Option (List Char)) (s : Sources) (addr : List Char) :
    Prop :=
  match s.origin with
  | .update => addr = s.update
  | .sync => addr = s.sync
  | .config => addr = joinHostPort s.configHost (itoa s.port)
  | .serverURL => ∃ host, extractHostFromURL urlHost s.serverURL = .ok host ∧
      addr = joinHostPort host (itoa defaultVoicePort)

/-- **The resolution.** -/
structure Resolved (urlHost : List Char → Option (List Char)) (s : Sources) : Prop where
  address : ∀ addr, resolve urlHost s = .ok addr →
    (∃ host port, splitHostPort addr = .ok (host, port) ∧ host ≠ [] ∧ port ≠ []) ∧
      TakenFrom urlHost s.trim addr
  documented : ∀ host port, Documented urlHost s.trim host port →
    ∃ addr, resolve urlHost s = .ok addr ∧ splitHostPort addr = .ok (host, port)
  ambiguous : Ambiguous urlHost s.trim → ∃ err, resolve urlHost s = .error err

/-! ## Texts -/

section Texts

variable {t h p addr : List Char} {urlHost : List Char → Option (List Char)} {s : Sources}

theorem IsPort.plain (hp : IsPort p) : Plain p := by
  have hno : ∀ c, c.isDigit = false → c ∉ p := fun c hc hm => by
    have := hp.2 c hm
    rw [hc] at this
    cases this
  exact ⟨hno ':' (by decide), hno '[' (by decide), hno ']' (by decide)⟩

theorem plain_itoa (n : ℤ) : Plain (itoa n) := by
  have hno : ∀ c : Char, ¬(c.isDigit = true ∨ c = '-') → c ∉ itoa n :=
    fun c hc hm => hc (isDigit_of_mem_itoa hm)
  exact ⟨hno ':' (by decide), hno '[' (by decide), hno ']' (by decide)⟩

theorem HostText.host (ht : HostText t h) : h ≠ [] ∧ '[' ∉ h ∧ ']' ∉ h := by
  cases ht with
  | name hname => exact ⟨hname.1, hname.2.2⟩
  | bracketed hv6 =>
    obtain ⟨hcount, hbrackets⟩ := hv6.colons
    refine ⟨?_, hbrackets⟩
    rintro rfl
    simp at hcount

theorem HostText.text (ht : HostText t h) : t ≠ [] := by
  cases ht with
  | name hname => exact hname.1
  | bracketed hv6 => exact List.cons_ne_nil _ _

theorem splitHostPort_hostText (ht : HostText t h) (hp : Plain p) :
    splitHostPort (t ++ ':' :: p) = .ok (h, p) := by
  cases ht with
  | name hname => exact splitHostPort_plain hname.2 hp
  | bracketed hv6 =>
    obtain ⟨-, hopen, hclose⟩ := hv6.colons
    rw [show '[' :: h ++ [']'] ++ ':' :: p = '[' :: h ++ ']' :: ':' :: p by simp]
    exact splitHostPort_bracketed hopen hclose hp

theorem splitHostPort_hostText_bare (ht : HostText t h) :
    splitHostPort t = .error .missingPort := by
  cases ht with
  | name hname => exact splitHostPort_of_notMem hname.2.1
  | bracketed hv6 => exact splitHostPort_brackets hv6.colons.2.2

theorem stripPortOrHost_hostText (ht : HostText t h) : stripPortOrHost t = .ok h := by
  unfold stripPortOrHost
  rw [splitHostPort_hostText_bare ht]
  cases ht with
  | name hname =>
    obtain ⟨-, hcolon, hopen, -⟩ := hname
    dsimp only
    rw [if_neg fun hb => head?_ne_of_notMem hopen hb.1, if_neg hcolon]
  | bracketed hv6 =>
    dsimp only
    rw [if_pos ⟨rfl, List.getLast?_concat⟩, List.cons_append, List.tail_cons, List.dropLast_concat]

theorem stripPortOrHost_port (ht : HostText t h) (hp : IsPort p) :
    stripPortOrHost (t ++ ':' :: p) = .ok h := by
  unfold stripPortOrHost
  rw [splitHostPort_hostText ht hp.plain]

/-- An ambiguous text does not begin with a bracket, and has colons before the last. -/
theorem splitHostPort_ambiguous (ht : AmbiguousText t) :
    splitHostPort t = .error .tooManyColons ∧ '[' ∉ t ∧ ']' ∉ t ∧ ':' ∈ t := by
  obtain ⟨h, p, hv6, hp, rfl⟩ := ht
  obtain ⟨hcount, hopen, hclose⟩ := hv6.colons
  obtain ⟨hcolon, hopen', hclose'⟩ := hp.plain
  have hopens : '[' ∉ h ++ ':' :: p := by simp [hopen, hopen']
  have hmem : ':' ∈ h := List.count_pos_iff.1 (by omega)
  exact ⟨splitHostPort_colons (head?_ne_of_notMem hopens) hmem hcolon, hopens,
    by simp [hclose, hclose'], List.mem_append_left _ hmem⟩

theorem stripPortOrHost_ambiguous (ht : AmbiguousText t) :
    stripPortOrHost t = .error (.ambiguousHost t) := by
  obtain ⟨hsplit, hopen, -, hcolon⟩ := splitHostPort_ambiguous ht
  unfold stripPortOrHost
  rw [hsplit]
  dsimp only
  rw [if_neg fun hb => head?_ne_of_notMem hopen hb.1, if_pos hcolon]

/-- A bare IPv6 address has too many colons for a host with a port. -/
theorem splitHostPort_ipv6 (hv6 : IsIPv6 h) : splitHostPort h = .error .tooManyColons := by
  obtain ⟨hcount, hopen, -⟩ := hv6.colons
  obtain ⟨a, b, rfl, hb⟩ := exists_append_last (List.count_pos_iff.1 (by omega : 0 < h.count ':'))
  refine splitHostPort_colons (head?_ne_of_notMem hopen) (List.count_pos_iff.1 ?_) hb
  rw [List.count_append, List.count_cons_self, List.count_eq_zero.2 hb] at hcount
  omega

theorem validateDialAddress_of_split (hsplit : splitHostPort addr = .ok (h, p)) (hh : h ≠ [])
    (hp : p ≠ []) : validateDialAddress addr = .ok addr := by
  unfold validateDialAddress
  rw [hsplit]
  dsimp only
  rw [if_neg hh, if_neg hp]

theorem validateDialAddress_ok {addr' : List Char} (hv : validateDialAddress addr = .ok addr') :
    addr' = addr ∧ ∃ h p, splitHostPort addr = .ok (h, p) ∧ h ≠ [] ∧ p ≠ [] := by
  unfold validateDialAddress at hv
  split at hv
  · cases hv
  · next h p hsplit =>
    split_ifs at hv with hh hp
    cases hv
    exact ⟨rfl, h, p, hsplit, hh, hp⟩

theorem validateDialAddress_join (hh : h ≠ []) (hopen : '[' ∉ h) (hclose : ']' ∉ h) (n : ℤ) :
    validateDialAddress (joinHostPort h (itoa n)) = .ok (joinHostPort h (itoa n)) ∧
      splitHostPort (joinHostPort h (itoa n)) = .ok (h, itoa n) := by
  have hsplit := splitHostPort_joinHostPort hopen hclose (plain_itoa n)
  exact ⟨validateDialAddress_of_split hsplit hh (itoa_ne_nil n), hsplit⟩

/-- A host in brackets that is joined with a port is not. -/
theorem validateDialAddress_brackets (hv6 : IsIPv6 h) (n : ℤ) :
    validateDialAddress (joinHostPort ('[' :: h ++ [']']) (itoa n)) =
      .error (.invalidAddress (joinHostPort ('[' :: h ++ [']']) (itoa n)) .missingPort) := by
  obtain ⟨hcount, hopen, hclose⟩ := hv6.colons
  have hcolon : ':' ∈ h := List.count_pos_iff.1 (by omega)
  have hjoin : joinHostPort ('[' :: h ++ [']']) (itoa n) =
      '[' :: ('[' :: h ++ ']' :: ']' :: ':' :: itoa n) := by
    unfold joinHostPort
    rw [if_pos (by simp [hcolon])]
    simp
  have hlast : cutLast ':' ('[' :: ('[' :: h ++ ']' :: ']' :: ':' :: itoa n)) =
      some ('[' :: ('[' :: h ++ [']', ']']), itoa n) := by
    rw [show '[' :: ('[' :: h ++ ']' :: ']' :: ':' :: itoa n) =
      '[' :: ('[' :: h ++ [']', ']']) ++ ':' :: itoa n by simp]
    exact cutLast_append (plain_itoa n).1
  have hcut : cut ']' ('[' :: h ++ ']' :: ']' :: ':' :: itoa n) =
      some ('[' :: h, ']' :: ':' :: itoa n) := cut_append (by simp [hclose])
  have hsplit : splitHostPort (joinHostPort ('[' :: h ++ [']']) (itoa n)) =
      .error .missingPort := by
    rw [hjoin, splitHostPort_open hlast hcut]
    rfl
  unfold validateDialAddress
  rw [hsplit]

end Texts

/-! ## The resolution -/

section Resolution

variable {urlHost : List Char → Option (List Char)} {s : Sources}

theorem resolveTrimmed_update (h : s.origin = .update) :
    resolveTrimmed urlHost s = validateDialAddress s.update := by
  unfold Sources.origin at h
  unfold resolveTrimmed
  split_ifs at h ⊢
  rfl

theorem resolveTrimmed_sync (h : s.origin = .sync) :
    resolveTrimmed urlHost s = validateDialAddress s.sync := by
  unfold Sources.origin at h
  unfold resolveTrimmed
  split_ifs at h ⊢
  rfl

theorem resolveTrimmed_config (h : s.origin = .config) :
    resolveTrimmed urlHost s =
      match splitHostPort s.configHost with
      | .ok _ => .error (.configHostHasPort s.configHost)
      | .error _ => validateDialAddress (joinHostPort s.configHost (itoa s.port)) := by
  unfold Sources.origin at h
  unfold resolveTrimmed
  split_ifs at h ⊢
  rfl

theorem resolveTrimmed_serverURL (h : s.origin = .serverURL) :
    resolveTrimmed urlHost s =
      if s.serverURL ≠ [] then
        match extractHostFromURL urlHost s.serverURL with
        | .error err => .error err
        | .ok host =>
          if host ≠ [] then validateDialAddress (joinHostPort host (itoa defaultVoicePort))
          else .error .noAddress
      else .error .noAddress := by
  unfold Sources.origin at h
  unfold resolveTrimmed
  split_ifs at h ⊢
  · rfl
  · rfl

/-- The host of a server URL is that of its authority. -/
theorem extractHostFromURL_eq {a : List Char} (ha : authority urlHost s.serverURL = some a)
    (hne : a ≠ []) : extractHostFromURL urlHost s.serverURL = stripPortOrHost a := by
  unfold authority at ha
  unfold extractHostFromURL
  split
  · next hurl =>
    rw [if_pos hurl] at ha
    rw [ha]
    exact if_neg hne
  · next hurl =>
    rw [if_neg hurl] at ha
    cases ha
    exact if_neg hne

/-- **The address** is the winning source's own, and splits into a host and a port. -/
theorem address_of_resolveTrimmed {addr : List Char} (h : resolveTrimmed urlHost s = .ok addr) :
    (∃ host port, splitHostPort addr = .ok (host, port) ∧ host ≠ [] ∧ port ≠ []) ∧
      TakenFrom urlHost s addr := by
  unfold TakenFrom
  cases horigin : s.origin with
  | update =>
    rw [resolveTrimmed_update horigin] at h
    obtain ⟨rfl, hsplit⟩ := validateDialAddress_ok h
    exact ⟨hsplit, rfl⟩
  | sync =>
    rw [resolveTrimmed_sync horigin] at h
    obtain ⟨rfl, hsplit⟩ := validateDialAddress_ok h
    exact ⟨hsplit, rfl⟩
  | config =>
    rw [resolveTrimmed_config horigin] at h
    split at h
    · cases h
    · obtain ⟨rfl, hsplit⟩ := validateDialAddress_ok h
      exact ⟨hsplit, rfl⟩
  | serverURL =>
    rw [resolveTrimmed_serverURL horigin] at h
    split_ifs at h
    split at h
    · cases h
    · next host hhost =>
      split_ifs at h
      obtain ⟨rfl, hsplit⟩ := validateDialAddress_ok h
      exact ⟨hsplit, host, hhost, rfl⟩

/-- A host of the configuration in brackets. -/
def Bracketed (t : List Char) : Prop := ∃ h, IsIPv6 h ∧ t = '[' :: h ++ [']']

/-- **A documented form resolves**, unless it is a host of the configuration in brackets. -/
theorem resolveTrimmed_documented {host port : List Char} (hd : Documented urlHost s host port)
    (hok : s.origin = .config → ¬Bracketed s.configHost) :
    ∃ addr, resolveTrimmed urlHost s = .ok addr ∧ splitHostPort addr = .ok (host, port) := by
  cases hd with
  | update horigin ht hp htext =>
    rw [resolveTrimmed_update horigin, htext]
    have hsplit := splitHostPort_hostText ht hp.plain
    exact ⟨_, validateDialAddress_of_split hsplit ht.host.1 hp.1, hsplit⟩
  | sync horigin ht hp htext =>
    rw [resolveTrimmed_sync horigin, htext]
    have hsplit := splitHostPort_hostText ht hp.plain
    exact ⟨_, validateDialAddress_of_split hsplit ht.host.1 hp.1, hsplit⟩
  | config horigin ht =>
    rw [resolveTrimmed_config horigin, splitHostPort_hostText_bare ht]
    obtain ⟨hne, hopen, hclose⟩ := ht.host
    generalize htext : s.configHost = t at ht
    cases ht with
    | name hname => exact ⟨_, validateDialAddress_join hne hopen hclose _⟩
    | bracketed hv6 => exact absurd ⟨_, hv6, htext⟩ (hok horigin)
  | configBare horigin hv6 hport =>
    rw [resolveTrimmed_config horigin, splitHostPort_ipv6 hv6]
    obtain ⟨hcount, hopen, hclose⟩ := hv6.colons
    have hne : s.configHost ≠ [] := fun h => by simp [h] at hcount
    exact ⟨_, validateDialAddress_join hne hopen hclose _⟩
  | serverURL horigin hne ha ht htext =>
    obtain ⟨hhost, hopen, hclose⟩ := ht.host
    have hstrip : extractHostFromURL urlHost s.serverURL = .ok host := by
      obtain rfl | ⟨p, hp, rfl⟩ := htext
      · rw [extractHostFromURL_eq ha ht.text]
        exact stripPortOrHost_hostText ht
      · rw [extractHostFromURL_eq ha (by simp)]
        exact stripPortOrHost_port ht hp
    rw [resolveTrimmed_serverURL horigin, if_pos hne, hstrip]
    dsimp only
    rw [if_pos hhost]
    exact ⟨_, validateDialAddress_join hhost hopen hclose _⟩

/-- An ambiguous text is an error, unless it is a host of the configuration. -/
theorem resolveTrimmed_ambiguous (h : Ambiguous urlHost s) (hok : s.origin ≠ .config) :
    ∃ err, resolveTrimmed urlHost s = .error err := by
  have hvalidate : ∀ t, AmbiguousText t → ∃ err, validateDialAddress t = .error err := by
    intro t ht
    unfold validateDialAddress
    rw [(splitHostPort_ambiguous ht).1]
    exact ⟨_, rfl⟩
  unfold Ambiguous at h
  cases horigin : s.origin with
  | update =>
    rw [horigin] at h
    rw [resolveTrimmed_update horigin]
    exact hvalidate _ h
  | sync =>
    rw [horigin] at h
    rw [resolveTrimmed_sync horigin]
    exact hvalidate _ h
  | config => exact absurd horigin hok
  | serverURL =>
    rw [horigin] at h
    obtain ⟨a, ha, ht⟩ := h
    have hne : a ≠ [] := fun h => by simpa [h] using (splitHostPort_ambiguous ht).2.2.2
    rw [resolveTrimmed_serverURL horigin, extractHostFromURL_eq ha hne,
      stripPortOrHost_ambiguous ht]
    split_ifs
    · exact ⟨_, rfl⟩
    · exact ⟨_, rfl⟩

/-- **The documented forms resolve**, and ambiguous ones do not, exactly when the address is
not that of a configured host which is in brackets, or which has no port of its own and is
ambiguous. -/
theorem resolve_documented (urlHost : List Char → Option (List Char)) (s : Sources) :
    Resolved urlHost s ↔
      ¬(s.trim.origin = .config ∧
        (Bracketed s.trim.configHost ∨
          s.configPort = 0 ∧ AmbiguousText s.trim.configHost)) := by
  constructor
  · rintro hres ⟨horigin, ⟨h, hv6, htext⟩ | ⟨hport, hamb⟩⟩
    · have hdoc : Documented urlHost s.trim h (itoa s.trim.port) :=
        .config horigin (htext ▸ .bracketed hv6)
      obtain ⟨addr, haddr, -⟩ := hres.documented _ _ hdoc
      unfold resolve at haddr
      rw [resolveTrimmed_config horigin, htext, splitHostPort_brackets hv6.colons.2.2] at haddr
      dsimp only at haddr
      rw [validateDialAddress_brackets hv6] at haddr
      cases haddr
    · have hin : Ambiguous urlHost s.trim := by
        unfold Ambiguous
        rw [horigin]
        exact ⟨hport, hamb⟩
      obtain ⟨err, herr⟩ := hres.ambiguous hin
      obtain ⟨hsplit, hopen, hclose, hcolon⟩ := splitHostPort_ambiguous hamb
      have hne : s.trim.configHost ≠ [] := List.ne_nil_of_mem hcolon
      unfold resolve at herr
      rw [resolveTrimmed_config horigin, hsplit] at herr
      dsimp only at herr
      rw [(validateDialAddress_join hne hopen hclose _).1] at herr
      cases herr
  · intro hcond
    refine ⟨fun addr h => address_of_resolveTrimmed h, fun host port hd => ?_, fun hamb => ?_⟩
    · exact resolveTrimmed_documented hd fun horigin hb => hcond ⟨horigin, .inl hb⟩
    · by_cases horigin : s.trim.origin = .config
      · unfold Ambiguous at hamb
        rw [horigin] at hamb
        exact absurd ⟨horigin, .inr hamb⟩ hcond
      · exact resolveTrimmed_ambiguous hamb horigin

/-- **A host of the configuration in brackets does not resolve.** -/
theorem resolve_bracketed : ¬∀ (urlHost : List Char → Option (List Char)) (s : Sources),
    Resolved urlHost s := by
  intro h
  let s : Sources := ⟨[], [], "[::1]".toList, 0, []⟩
  have hone : IsIPv6 "::1".toList :=
    .inr ⟨0, 1, [], ['1'], by decide, ⟨[], [], nofun, .inl ⟨rfl, rfl⟩, rfl⟩,
      ⟨[['1']], [], by simp [IsGroup, isHexDigit], .inl ⟨rfl, rfl⟩, rfl⟩, rfl⟩
  have hdoc : Documented (fun _ => none) s.trim "::1".toList (itoa s.trim.port) :=
    .config (by decide) (.bracketed hone)
  obtain ⟨addr, haddr, -⟩ := (h (fun _ => none) s).documented _ _ hdoc
  have herr : ∃ err, resolve (fun _ => none) s = .error err := ⟨_, rfl⟩
  obtain ⟨err, herr⟩ := herr
  rw [haddr] at herr
  cases herr

end Resolution

end VcsClient.Voice
