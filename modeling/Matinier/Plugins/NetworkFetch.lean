import Matinier.CourseOrganizer.Events
import Matinier.Plugins.Permissions

/-!
# Fetches from the network

A fetch follows the redirects of the servers it meets by itself. Each hop is checked before its
request is issued: the form of the URL, the addresses of its host, and the destinations that the
fetch was authorized for. How URLs are split and joined, what a URL of the schema is, what hosts
resolve to and what servers answer is left open, and may differ from hop to hop.
-/

namespace Matinier
namespace Plugins

open Assistant

/-- What is read of a URL that is split; the port of some is refused only where it is read. -/
structure UrlParts where
  scheme : String
  username : Option String
  password : Option String
  port : Except Fault (Option ℕ)
  hostname : Option String

structure NetworkFetchInput where
  url : String
  method : String := "GET"
  acceptedMimeTypes : List String
  maxResponseBytes : ℕ := 256 * 1024
  body : Option String := none

structure NetworkResponse where
  status : ℕ
  mimeType : String
  body : List UInt8
  headers : List (String × String)

structure NetworkFetchOutput where
  status : ℕ
  mimeType : String
  body : String

/-- What a fetch is run with; resolver and handler are asked once for each hop. -/
structure FetchEnvironment where
  casefold : String → String
  urlsplit : String → Except Fault UrlParts
  urljoin : String → String → Except Fault String
  httpUrl : String → Except Fault String
  decode : List UInt8 → String
  isGlobal : String → Option Bool
  resolver : ℕ → String → Except Fault (List String)
  handler : ℕ → NetworkFetchInput → Except Fault NetworkResponse
  maxRedirects : ℕ

/-- A request as it is handed to the handler on a hop, with the addresses its host was found to
have. -/
structure IssuedRequest where
  hop : ℕ
  input : NetworkFetchInput
  addresses : List String

/-- How a fetch ends; the last way is the one that the code declares unreachable. -/
inductive FetchOutcome where
  | returned (output : NetworkFetchOutput)
  | raised (fault : Fault)
  | unreachable

structure FetchRun where
  requests : List IssuedRequest := []
  outcome : FetchOutcome

def filled (text : Option String) : Bool := text.any fun t => t ≠ ""

namespace FetchEnvironment

variable (env : FetchEnvironment) (scope : Json)

/-- Check the form of a URL and the addresses of its host. -/
def validateNetworkTarget (hop : ℕ) (url : String) : Except Fault (List String) := do
  let parsed ← env.urlsplit url
  ensure (env.casefold parsed.scheme = "https") (.value "network.fetch requires HTTPS")
  ensure (¬ (filled parsed.username = true ∨ filled parsed.password = true))
    (.value "network.fetch URL authority is not allowed")
  let port ← parsed.port
  ensure (port = none ∨ port = some 443) (.value "network.fetch URL authority is not allowed")
  let hostname := env.casefold (parsed.hostname.getD "")
  ensure (hostname ≠ "") (.value "network.fetch URL has no hostname")
  let addresses ← env.resolver hop hostname
  ensure (addresses ≠ []) (.value "network destination did not resolve")
  ensure (∀ address ∈ addresses, (env.isGlobal address).isSome = true)
    (.value "network resolver returned an invalid address")
  ensure (∀ address ∈ addresses, env.isGlobal address = some true)
    (.value "network destination must resolve only to public addresses")
  pure addresses

def containsText (values : Option Json) (expected : String) : Bool :=
  match values with
  | some (.arr items) =>
    items.any fun item => item.text?.any fun text => env.casefold text = expected
  | _ => false

/-- Check the target of a hop, and that the fetch is authorized for it. -/
def target (hop : ℕ) (url : String) : Except Fault (List String) := do
  let addresses ← env.validateNetworkTarget hop url
  let parsed ← env.urlsplit url
  let hostname := env.casefold (parsed.hostname.getD "")
  ensure (env.containsText (scope.get? "destinations") hostname = true)
    (.denied "The network destination is outside the active grant.")
  pure addresses

def header (headers : List (String × String)) (name : String) : Option String :=
  (headers.find? fun entry => env.casefold entry.1 = env.casefold name).map Prod.snd

def essence (mimeType : String) : String :=
  env.casefold (stripped (String.ofList (mimeType.toList.takeWhile (· ≠ ';'))))

def mimeMatches (allowed actual : String) : Bool :=
  let normalized := env.essence allowed
  if normalized = "*/*" then true
  else if normalized.endsWith "/*" then actual.startsWith (normalized.dropEnd 1).toString
  else normalized = actual

def redirectStatuses : List ℕ := [301, 302, 303, 307, 308]

/-- What an answer leads to: the output, or the input of the next hop. -/
def settleResponse (hop : ℕ) (current : NetworkFetchInput) (raw : NetworkResponse) :
    Except Fault (NetworkFetchOutput ⊕ NetworkFetchInput) := do
  let location := (env.header raw.headers "location").getD ""
  if raw.status ∈ redirectStatuses ∧ location ≠ "" then
    ensure (hop < env.maxRedirects) (.value "network redirect limit exceeded")
    let redirected ← env.urljoin current.url location
    let url ← env.httpUrl redirected
    pure (.inr { current with url })
  else
    let mime := env.essence raw.mimeType
    ensure (∃ allowed ∈ current.acceptedMimeTypes, env.mimeMatches allowed mime = true)
      (.value "network response MIME type is not allowed")
    ensure (raw.body.length ≤ current.maxResponseBytes)
      (.value "network response exceeds the byte limit")
    ensure (100 ≤ raw.status ∧ raw.status ≤ 599 ∧ 1 ≤ mime.length ∧ mime.length ≤ 128)
      (.value "network adapter returned an invalid response")
    pure (.inl { status := raw.status, mimeType := mime, body := env.decode raw.body })

def fetchHops (hop : ℕ) : ℕ → NetworkFetchInput → FetchRun
  | 0, _ => { outcome := .unreachable }
  | left + 1, current =>
    match env.target scope hop current.url with
    | .error fault => { outcome := .raised fault }
    | .ok addresses =>
      let request := ⟨hop, current, addresses⟩
      match env.handler hop current >>= env.settleResponse hop current with
      | .error fault => { requests := [request], outcome := .raised fault }
      | .ok (.inl output) => { requests := [request], outcome := .returned output }
      | .ok (.inr redirected) =>
        let rest := fetchHops (hop + 1) left redirected
        { rest with requests := request :: rest.requests }

def networkFetch (input : NetworkFetchInput) : FetchRun :=
  env.fetchHops scope 0 (env.maxRedirects + 1) input

/-- A request stays within its authorization: an https URL on the standard port, without
credentials, of a host that is a destination of the scope and resolves to public addresses only. -/
structure Within (request : IssuedRequest) : Prop where
  url : ∃ parsed, env.urlsplit request.input.url = .ok parsed ∧
    env.casefold parsed.scheme = "https" ∧
    filled parsed.username = false ∧ filled parsed.password = false ∧
    (parsed.port = .ok none ∨ parsed.port = .ok (some 443)) ∧
    env.resolver request.hop (env.casefold (parsed.hostname.getD "")) = .ok request.addresses ∧
    ∃ items, scope.get? "destinations" = some (.arr items) ∧
      ∃ destination, .str destination ∈ items ∧
        env.casefold destination = env.casefold (parsed.hostname.getD "")
  resolved : request.addresses ≠ []
  global : ∀ address ∈ request.addresses, env.isGlobal address = some true

variable {env scope}

theorem containsText_eq_true {values : Option Json} {expected : String}
    (h : env.containsText values expected = true) : ∃ items, values = some (.arr items) ∧
      ∃ destination, .str destination ∈ items ∧ env.casefold destination = expected := by
  unfold containsText at h
  split at h
  · rename_i items
    obtain ⟨item, hitem, htext⟩ := List.any_eq_true.mp h
    cases item with
    | str text => exact ⟨items, rfl, text, hitem, by simpa [Json.text?] using htext⟩
    | _ => simp [Json.text?] at htext
  · cases h

theorem target_within {hop : ℕ} {input : NetworkFetchInput} {addresses : List String}
    (h : env.target scope hop input.url = .ok addresses) :
    env.Within scope ⟨hop, input, addresses⟩ := by
  unfold target validateNetworkTarget at h
  simp only [bind_eq_ok, ensure_eq_ok, pure_eq_ok] at h
  obtain ⟨resolved, ⟨parsed, hparsed, _, hscheme, _, hcredentials, port, hport, _, hstandard, _, -,
    found, hfound, _, hresolved, _, -, _, hglobal, rfl⟩, parsed', hparsed', _, hdestination,
    rfl⟩ := h
  obtain rfl : parsed = parsed' := Except.ok.inj (hparsed.symm.trans hparsed')
  obtain ⟨husername, hpassword⟩ := not_or.mp hcredentials
  refine ⟨⟨parsed, hparsed, hscheme, by simpa using husername, by simpa using hpassword, ?_, hfound,
    containsText_eq_true hdestination⟩, hresolved, hglobal⟩
  rcases hstandard with rfl | rfl
  · exact .inl hport
  · exact .inr hport

/-- A redirect is followed only where another hop is left. -/
theorem redirect_lt {hop : ℕ} {current redirected : NetworkFetchInput}
    (h : (env.handler hop current >>= env.settleResponse hop current) = .ok (.inr redirected)) :
    hop < env.maxRedirects := by
  obtain ⟨raw, -, h⟩ := bind_eq_ok.mp h
  unfold settleResponse at h
  dsimp only at h
  split_ifs at h
  · simp only [bind_eq_ok, ensure_eq_ok] at h
    obtain ⟨_, hlt, -⟩ := h
    exact hlt
  · simp [bind_eq_ok] at h

theorem fetchHops_within (left : ℕ) : ∀ (hop : ℕ) (current : NetworkFetchInput),
    hop + left = env.maxRedirects + 1 → 0 < left →
    (∀ request ∈ (env.fetchHops scope hop left current).requests, env.Within scope request) ∧
      (env.fetchHops scope hop left current).requests.length ≤ left ∧
      (env.fetchHops scope hop left current).outcome ≠ .unreachable := by
  induction left with
  | zero => exact fun _ _ _ h => absurd h (lt_irrefl 0)
  | succ left ih =>
    intro hop current hhop _
    rw [fetchHops]
    split
    · simp
    · rename_i addresses htarget
      have hwithin := target_within htarget
      dsimp only
      split
      · simpa using hwithin
      · simpa using hwithin
      · rename_i redirected hanswer
        have hleft := redirect_lt hanswer
        obtain ⟨hrequests, hlength, houtcome⟩ := ih (hop + 1) redirected (by omega) (by omega)
        exact ⟨List.forall_mem_cons.mpr ⟨hwithin, hrequests⟩, Nat.succ_le_succ hlength, houtcome⟩

/-- Every request of a fetch stays within its authorization, there are no more of them than
redirects are followed and one, and the fetch ends with a response or an error. -/
theorem networkFetch_within (env : FetchEnvironment) (scope : Json) (input : NetworkFetchInput) :
    (∀ request ∈ (env.networkFetch scope input).requests, env.Within scope request) ∧
      (env.networkFetch scope input).requests.length ≤ env.maxRedirects + 1 ∧
      (env.networkFetch scope input).outcome ≠ .unreachable :=
  fetchHops_within _ 0 input (Nat.zero_add _) (Nat.succ_pos _)

def relayed : FetchEnvironment where
  casefold := id
  urlsplit url := .ok ⟨"https", none, none, .ok none, some url⟩
  urljoin _ location := .ok location
  httpUrl := .ok
  decode _ := ""
  isGlobal _ := some true
  resolver _ hostname := .ok [hostname ++ ".address"]
  handler hop _ := .ok (if hop = 0 then ⟨302, "", [], [("location", "b.example")]⟩
    else ⟨200, "text/plain", [], []⟩)
  maxRedirects := 3

example : ((relayed.networkFetch (.obj [("destinations", .arr [.str "a.example",
      .str "b.example"])]) { url := "a.example", acceptedMimeTypes := ["text/plain"] }).requests.map
    fun request => (request.hop, request.input.url, request.addresses)) =
    [(0, "a.example", ["a.example.address"]), (1, "b.example", ["b.example.address"])] := by
  decide +kernel

end FetchEnvironment

end Plugins
end Matinier
