import MibServer.Auth.Service
import Mathlib.Data.List.Basic

/-!
The address behind the rate limit of `login`.

In production there is one trusted proxy, which appends the address of its peer to
`X-Forwarded-For`. `getClientIp` takes the first element of that header instead, which is
the client's own unless it has sent none.
-/

namespace MibServer.Auth

/-- `x-forwarded-for`, as one string or as several lines. -/
inductive Forwarded where
  | text (forwarded : String)
  | lines (forwarded : List String)
deriving DecidableEq, Repr

/-- What `getClientIp` reads of a request; `ip` is what Express makes of the trusted proxies. -/
structure ClientRequest where
  forwarded : Option Forwarded
  ip : Option String
  remoteAddress : Option String
deriving DecidableEq, Repr

/-- `text || other` -/
def orElse (text other : String) : String := if text = "" then other else text

/-- `text.split(',')[0]` -/
def firstElement (text : String) : String := String.ofList ((text.toList.splitOn ',').headD [])

def getClientIp (req : ClientRequest) : String :=
  let direct := orElse (req.ip.getD "") (orElse (req.remoteAddress.getD "") "unknown")
  match req.forwarded with
  | some (.text forwarded) =>
      if forwarded ≠ "" then orElse (trim (firstElement forwarded)) "unknown" else direct
  | some (.lines (first :: _)) =>
      if first ≠ "" then orElse (trim (firstElement first)) "unknown" else direct
  | _ => direct

/-! ### The proxy -/

/-- The trusted proxy: the address of its peer, and how it appends it. -/
structure Proxy where
  peer : String
  /-- The spaces after the comma. -/
  pad : String
  /-- Whether it writes a line of its own after several lines. -/
  ownLine : Bool
  peer_ne : peer ≠ "" ∧ peer ≠ "unknown"
  peer_free : ∀ c ∈ peer.toList, c ≠ ',' ∧ isJsSpace c = false
  pad_space : ∀ c ∈ pad.toList, isJsSpace c = true

def Proxy.append (proxy : Proxy) : Option Forwarded → Forwarded
  | none => .text proxy.peer
  | some (.text sent) => .text (sent ++ "," ++ proxy.pad ++ proxy.peer)
  | some (.lines []) => .lines [proxy.peer]
  | some (.lines (first :: rest)) =>
      if proxy.ownLine then .lines (first :: rest ++ [proxy.peer])
      else .lines ((first :: rest).dropLast ++
        [(first :: rest).getLast (List.cons_ne_nil _ _) ++ "," ++ proxy.pad ++ proxy.peer])

/-- A request as it reaches the server through the proxy; one trusted hop makes the appended
address the `ip` of the request. -/
def Proxy.forward (proxy : Proxy) (sent : Option Forwarded) (remoteAddress : Option String) :
    ClientRequest where
  forwarded := some (proxy.append sent)
  ip := some proxy.peer
  remoteAddress := remoteAddress

/-- The client has sent nothing before the appended address but, at the front, that address;
or it has sent several lines and left the first one empty. -/
def Proxy.Harmless (proxy : Proxy) : Option Forwarded → Prop
  | none | some (.lines []) => True
  | some (.text sent) => trim (firstElement sent) = proxy.peer
  | some (.lines (first :: rest)) => trim (firstElement first) = proxy.peer ∨
      (first = "" ∧ (rest ≠ [] ∨ proxy.ownLine))

variable {proxy : Proxy}

theorem firstElement_append (sent pad rest : String) :
    firstElement (sent ++ "," ++ pad ++ rest) = firstElement sent := by
  have hsplit : (sent ++ "," ++ pad ++ rest).toList = sent.toList ++ ',' :: (pad ++ rest).toList := by
    simp only [String.toList_append, List.append_assoc]
    rfl
  obtain ⟨head, tail, hparts⟩ := List.exists_cons_of_ne_nil (List.splitOn_ne_nil ',' sent.toList)
  rw [firstElement, firstElement, hsplit, List.splitOn_append_cons_self, hparts]
  rfl

theorem firstElement_peer : firstElement proxy.peer = proxy.peer := by
  have hcomma : ',' ∉ proxy.peer.toList := fun hmem => (proxy.peer_free ',' hmem).1 rfl
  rw [firstElement, List.splitOn_eq_singleton hcomma]
  exact String.ofList_toList

theorem trim_peer : trim proxy.peer = proxy.peer :=
  trim_of_no_space fun c hc => (proxy.peer_free c hc).2

/-- The replacement of an empty element is not the address either. -/
theorem orElse_eq_peer {text : String} : orElse text "unknown" = proxy.peer ↔ text = proxy.peer := by
  unfold orElse
  split
  · next hempty =>
      rw [hempty]
      exact iff_of_false proxy.peer_ne.2.symm proxy.peer_ne.1.symm
  · rfl

/-- What the code makes of the first of several lines. -/
theorem getClientIp_lines (first : String) (rest : List String) (remoteAddress : Option String) :
    getClientIp ⟨some (.lines (first :: rest)), some proxy.peer, remoteAddress⟩ = proxy.peer ↔
      trim (firstElement first) = proxy.peer ∨ first = "" := by
  have hdirect : orElse proxy.peer (orElse (remoteAddress.getD "") "unknown") = proxy.peer :=
    if_neg proxy.peer_ne.1
  by_cases hfirst : first = ""
  · simp [getClientIp, hfirst, hdirect]
  · simp [getClientIp, hfirst, orElse_eq_peer]

/-- The address behind the limit is the one of the peer if and only if the client has not put
another one in front. -/
theorem getClientIp_iff (proxy : Proxy) (sent : Option Forwarded) (remoteAddress : Option String) :
    getClientIp (proxy.forward sent remoteAddress) = proxy.peer ↔ proxy.Harmless sent := by
  match sent with
  | none =>
      simp [getClientIp, Proxy.forward, Proxy.append, Proxy.Harmless, firstElement_peer, trim_peer,
        orElse_eq_peer, proxy.peer_ne.1]
  | some (.text sent) =>
      simp [getClientIp, Proxy.forward, Proxy.append, Proxy.Harmless, firstElement_append, orElse_eq_peer]
  | some (.lines []) =>
      exact iff_of_true ((getClientIp_lines proxy.peer [] remoteAddress).mpr
        (Or.inl (by rw [firstElement_peer, trim_peer]))) trivial
  | some (.lines (first :: rest)) =>
      cases hown : proxy.ownLine with
      | true =>
          have hforward : proxy.forward (some (.lines (first :: rest))) remoteAddress =
              ⟨some (.lines (first :: (rest ++ [proxy.peer]))), some proxy.peer, remoteAddress⟩ := by
            simp [Proxy.forward, Proxy.append, hown]
          rw [hforward, getClientIp_lines, Proxy.Harmless, hown]
          simp
      | false =>
          cases rest with
          | nil =>
              have hforward : proxy.forward (some (.lines [first])) remoteAddress =
                  ⟨some (.lines [first ++ "," ++ proxy.pad ++ proxy.peer]), some proxy.peer,
                    remoteAddress⟩ := by
                simp [Proxy.forward, Proxy.append, hown]
              rw [hforward, getClientIp_lines, Proxy.Harmless, hown, firstElement_append]
              simp
          | cons second rest =>
              have hforward : ∃ rest', proxy.forward (some (.lines (first :: second :: rest))) remoteAddress =
                  ⟨some (.lines (first :: rest')), some proxy.peer, remoteAddress⟩ := by
                simp [Proxy.forward, Proxy.append, hown]
              obtain ⟨rest', hforward⟩ := hforward
              rw [hforward, getClientIp_lines, Proxy.Harmless, hown]
              simp

/-! ### A header of the client -/

theorem peer_example_free : ∀ c ∈ "203.0.113.9".toList, c ≠ ',' ∧ isJsSpace c = false :=
  forall_mem_of_all (by decide)

theorem pad_example_space : ∀ c ∈ " ".toList, isJsSpace c = true :=
  forall_mem_of_all (by decide)

def exampleProxy : Proxy where
  peer := "203.0.113.9"
  pad := " "
  ownLine := false
  peer_ne := ⟨by decide, by decide⟩
  peer_free := peer_example_free
  pad_space := pad_example_space

/-- A client gets the counter of an address of its choice. -/
theorem chosen_address : ¬ ∀ (proxy : Proxy) (sent : Option Forwarded) (remoteAddress : Option String),
    getClientIp (proxy.forward sent remoteAddress) = proxy.peer := by
  intro h
  have hchosen : getClientIp (exampleProxy.forward (some (.text "198.51.100.7")) none) = "198.51.100.7" := by
    decide
  exact absurd (hchosen.symm.trans (h exampleProxy (some (.text "198.51.100.7")) none)) (by decide)

end MibServer.Auth
