import VcsClient.Lib.HostPort

/-!
# The transport of a dial

`dialerFor` and `transportCredentials` of `internal/session/dial.go`. The CA file is read
by `readFile` and its certificates are taken by `appendCertsFromPEM`. A host that begins
with `127.` counts as this machine, whatever follows; plaintext is for this machine only
where such a host is an address (`plaintext_local`).
-/

namespace VcsClient.Session

open VcsClient.Lib

variable {PEM Pool : Type*}

/-- `credentials.TransportCredentials`. -/
inductive TransportCredentials (Pool : Type*) where
  /-- TLS, with the pool instead of the OS trust store -/
  | tls (rootCAs : Option Pool)
  | insecure
  deriving DecidableEq

inductive DialError where
  | emptyAddress
  | notHostPort (err : SplitError)
  | readCAFile (caFile : List Char)
  | noCertificate (caFile : List Char)
  deriving DecidableEq

/-- What the closure of `dialerFor` dials, and how. -/
structure Dialer (Pool : Type*) where
  serverURL : List Char
  creds : TransportCredentials Pool
  deriving DecidableEq

/-- `isLocal`. -/
def isLocal (host : List Char) : Bool :=
  host = "localhost".toList || host = "127.0.0.1".toList || host = "::1".toList ||
    "127.".toList.isPrefixOf host

/-- `transportCredentials`. -/
def transportCredentials (readFile : List Char → Option PEM)
    (appendCertsFromPEM : PEM → Option Pool) (host caFile : List Char) : Except DialError (TransportCredentials Pool) :=
  if caFile ≠ [] then
    match readFile caFile with
    | none => .error (.readCAFile caFile)
    | some pemBytes =>
      match appendCertsFromPEM pemBytes with
      | none => .error (.noCertificate caFile)
      | some pool => .ok (.tls (some pool))
  else if isLocal host then .ok .insecure
  else .ok (.tls none)

/-- `dialerFor`. -/
def dialerFor (readFile : List Char → Option PEM) (appendCertsFromPEM : PEM → Option Pool)
    (serverURL caFile : List Char) : Except DialError (Dialer Pool) :=
  if serverURL = [] then .error .emptyAddress
  else
    match splitHostPort serverURL with
    | .error err => .error (.notHostPort err)
    | .ok (host, _) =>
      match transportCredentials readFile appendCertsFromPEM host caFile with
      | .error err => .error err
      | .ok creds => .ok ⟨serverURL, creds⟩

/-- An address of `127.0.0.0/8`. -/
def LoopbackIPv4 (host : List Char) : Prop := ∃ b c d, host = dotted 127 b c d

/-- `localhost`, or an address of the loopback range; that of IPv6 is `::1` alone. -/
def ThisMachine (host : List Char) : Prop :=
  host = "localhost".toList ∨ LoopbackIPv4 host ∨ host = "::1".toList

variable {readFile : List Char → Option PEM} {appendCertsFromPEM : PEM → Option Pool}
  {host port serverURL caFile : List Char}

/-- **A dial without TLS** has no CA file, and its host is taken for this machine. -/
theorem dialerFor_insecure :
    dialerFor readFile appendCertsFromPEM serverURL caFile = .ok ⟨serverURL, .insecure⟩ ↔
      caFile = [] ∧ ∃ host port, splitHostPort serverURL = .ok (host, port) ∧
        isLocal host = true := by
  unfold dialerFor
  by_cases hempty : serverURL = []
  · subst hempty
    rw [if_pos rfl]
    constructor
    · nofun
    · rintro ⟨-, host, port, hsplit, -⟩
      rw [splitHostPort_of_notMem (by simp)] at hsplit
      cases hsplit
  · rw [if_neg hempty]
    cases hsplit : splitHostPort serverURL with
    | error err => simp
    | ok hp =>
      obtain ⟨host, port⟩ := hp
      dsimp only
      unfold transportCredentials
      by_cases hca : caFile = []
      · rw [if_neg (not_not.2 hca)]
        cases hlocal : isLocal host <;> simp [hca, hlocal]
      · rw [if_pos hca]
        constructor
        · intro h
          split at h
          · cases h
          · next creds hcreds =>
            split at hcreds
            · cases hcreds
            · split at hcreds
              · cases hcreds
              · cases hcreds
                cases h
        · exact fun h => absurd h.1 hca

/-- **Plaintext is for this machine** exactly when a CA file is given, or the host does not
begin with `127.` unless it is an address. -/
theorem plaintext_local (readFile : List Char → Option PEM)
    (appendCertsFromPEM : PEM → Option Pool) (serverURL caFile : List Char) :
    (dialerFor readFile appendCertsFromPEM serverURL caFile = .ok ⟨serverURL, .insecure⟩ →
      caFile = [] ∧ ∃ host port, splitHostPort serverURL = .ok (host, port) ∧ ThisMachine host) ↔
    (caFile = [] → ∀ host port, splitHostPort serverURL = .ok (host, port) →
      "127.".toList.isPrefixOf host = true → LoopbackIPv4 host) := by
  rw [dialerFor_insecure]
  constructor
  · intro h hca host port hsplit hpre
    obtain ⟨-, host', port', hsplit', hthis⟩ := h ⟨hca, host, port, hsplit, by
      unfold isLocal
      rw [hpre, Bool.or_true]⟩
    rw [hsplit] at hsplit'
    cases hsplit'
    obtain rfl | hloop | rfl := hthis
    · cases hpre
    · exact hloop
    · cases hpre
  · rintro h ⟨hca, host, port, hsplit, hlocal⟩
    refine ⟨hca, host, port, hsplit, ?_⟩
    unfold isLocal at hlocal
    simp only [Bool.or_eq_true, decide_eq_true_iff] at hlocal
    obtain ((rfl | rfl) | rfl) | hpre := hlocal
    · exact .inl rfl
    · exact .inr (.inl ⟨0, 0, 1, rfl⟩)
    · exact .inr (.inr rfl)
    · exact .inr (.inl (h hca host port hsplit hpre))

/-- **A name that begins with `127.` is dialled without TLS.** -/
theorem plaintext_remote : ¬∀ serverURL caFile : List Char,
    dialerFor (fun _ => (none : Option Unit)) (fun _ => (none : Option Unit)) serverURL caFile =
        .ok ⟨serverURL, .insecure⟩ →
      caFile = [] ∧ ∃ host port, splitHostPort serverURL = .ok (host, port) ∧ ThisMachine host := by
  intro h
  obtain ⟨-, host, port, hsplit, hthis⟩ := h "127.0.0.1.example.org:443".toList [] (by decide)
  have hhost : splitHostPort "127.0.0.1.example.org:443".toList =
      .ok ("127.0.0.1.example.org".toList, "443".toList) := by decide
  rw [hhost] at hsplit
  cases hsplit
  obtain heq | hloop | heq := hthis
  · exact absurd heq (by decide)
  · obtain ⟨b, c, d, heq⟩ := hloop
    have hx : 'x' ∈ dotted 127 b c d := by
      rw [← heq]
      decide
    obtain hd | he := isDigit_of_mem_dotted hx
    · exact absurd hd (by decide)
    · exact absurd he (by decide)
  · exact absurd heq (by decide)

end VcsClient.Session
