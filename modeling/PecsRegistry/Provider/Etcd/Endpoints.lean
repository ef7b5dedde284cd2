import PecsRegistry.Provider.Etcd.Config

/-!
# Provider/Etcd/Endpoints — the addresses a configuration connects to

A `host` with a comma in it is a list of addresses, each with its port and scheme or without; one
without a comma is the name of a single host, to which `port` belongs.  In a list an address is read
the same wherever it stands (`endpoints_append`), but on its own only if it is a bare host name.
-/

namespace PecsRegistry

/-- `trim` drops characters. -/
theorem trim_sublist (s : String) : (trim s).toList.Sublist s.toList := by
  rw [trim, String.toList_ofList]
  refine List.Sublist.trans ?_ (List.dropWhile_sublist isWhitespace)
  rw [← List.reverse_sublist, List.reverse_reverse]
  exact List.dropWhile_sublist isWhitespace

/-- `s.split(',')`. -/
def splitCommas (s : String) : List String := (s.toList.splitOn ',').map String.ofList

namespace RegistryConfig

variable {config : RegistryConfig} {h h₁ h₂ : String}

/-- The address of a single host. -/
def endpoint (config : RegistryConfig) : String :=
  "http://" ++ config.host ++ ":" ++ toString config.port

/-- What an address of a list stands for: it may leave out the scheme, and then the port. -/
def url (config : RegistryConfig) (addr : String) : String :=
  if "http://".toList <+: addr.toList ∨ "https://".toList <+: addr.toList then addr
  else if ':' ∈ addr.toList then "http://" ++ addr
  else "http://" ++ addr ++ ":" ++ toString config.port

/-- The addresses of a list. -/
def urls (config : RegistryConfig) (list : String) : List String :=
  (((splitCommas list).map trim).filter (· ≠ "")).map config.url

def endpoints (config : RegistryConfig) : List String :=
  if ',' ∈ config.host.toList then config.urls config.host else [config.endpoint]

/-- The configuration with another host. -/
def withHost (config : RegistryConfig) (host : String) : RegistryConfig :=
  { config with host := host }

/-- The name of a host, without a port or a scheme. -/
def BareHost (s : String) : Prop := s ≠ "" ∧ ':' ∉ s.toList ∧ trim s = s

theorem endpoint_withHost (config : RegistryConfig) (h : String) :
    (config.withHost h).endpoint = "http://" ++ h ++ ":" ++ toString config.port := rfl

theorem endpoints_withHost (config : RegistryConfig) (h : String) :
    (config.withHost h).endpoints
      = if ',' ∈ h.toList then config.urls h else [(config.withHost h).endpoint] := rfl

/-! ## One list -/

theorem splitCommas_append (h₁ h₂ : String) :
    splitCommas (h₁ ++ "," ++ h₂) = splitCommas h₁ ++ splitCommas h₂ := by
  have hlist : (h₁ ++ "," ++ h₂).toList = h₁.toList ++ ',' :: h₂.toList := by simp
  rw [splitCommas, hlist, List.splitOn_append_cons_self, List.map_append, splitCommas, splitCommas]

theorem urls_append (config : RegistryConfig) (h₁ h₂ : String) :
    config.urls (h₁ ++ "," ++ h₂) = config.urls h₁ ++ config.urls h₂ := by
  rw [urls, splitCommas_append, List.map_append, List.filter_append, List.map_append, urls, urls]

theorem urls_of_notMem (hcomma : ',' ∉ h.toList) :
    config.urls h = if trim h = "" then [] else [config.url (trim h)] := by
  have hsplit : splitCommas h = [h] := by
    rw [splitCommas, List.splitOn_eq_singleton hcomma, List.map_singleton, String.ofList_toList]
  rw [urls, hsplit]
  split_ifs with hblank <;> simp [hblank]

/-! ## One address -/

/-- A URL has a colon in it. -/
theorem colon_mem_of_scheme
    (hscheme : "http://".toList <+: h.toList ∨ "https://".toList <+: h.toList) :
    ':' ∈ h.toList := by
  rcases hscheme with hscheme | hscheme
  · exact hscheme.subset (by decide)
  · exact hscheme.subset (by decide)

/-- **An address on its own is read as in a list** exactly if it is a bare host name: otherwise it
is given a scheme and a port on top of its own. -/
theorem endpoint_eq_url_iff (hblank : trim h ≠ "") :
    (config.withHost h).endpoint = config.url (trim h) ↔ BareHost h := by
  have hlength : (trim h).length ≤ h.length := (trim_sublist h).length_le
  have hmem : BareHost h → ':' ∉ (trim h).toList := fun hbare hcolon =>
    hbare.2.1 ((trim_sublist h).subset hcolon)
  rw [url]
  split_ifs with hscheme hcolon
  · refine iff_of_false (fun heq => ?_) fun hbare => hmem hbare (colon_mem_of_scheme hscheme)
    have := congrArg String.length heq
    simp only [endpoint_withHost, String.length_append] at this
    rw [show "http://".length = 7 from rfl] at this
    omega
  · refine iff_of_false (fun heq => ?_) fun hbare => hmem hbare hcolon
    have := congrArg String.length heq
    simp only [endpoint_withHost, String.length_append] at this
    rw [show ":".length = 1 from rfl] at this
    omega
  · have hcancel : (config.withHost h).endpoint
        = "http://" ++ trim h ++ ":" ++ toString config.port ↔ trim h = h := by
      rw [endpoint_withHost, ← String.toList_inj]
      simp only [String.toList_append, List.append_left_inj, List.append_right_inj,
        String.toList_inj]
      exact eq_comm
    rw [hcancel]
    constructor
    · intro heq
      rw [heq] at hblank hcolon
      exact ⟨hblank, hcolon, heq⟩
    · exact fun hbare => hbare.2.2

theorem endpoints_eq_urls_iff (config : RegistryConfig) (h : String) :
    (config.withHost h).endpoints = config.urls h ↔ ',' ∈ h.toList ∨ BareHost h := by
  by_cases hcomma : ',' ∈ h.toList
  · refine iff_of_true ?_ (.inl hcomma)
    rw [endpoints_withHost, if_pos hcomma]
  · rw [endpoints_withHost, if_neg hcomma, urls_of_notMem hcomma, or_iff_right hcomma]
    split_ifs with hblank
    · refine iff_of_false (by simp) fun hbare => ?_
      exact hbare.1 (hbare.2.2.symm.trans hblank)
    · rw [List.singleton_inj, endpoint_eq_url_iff hblank]

theorem length_urls_le (config : RegistryConfig) (h : String) :
    (config.urls h).length ≤ (config.withHost h).endpoints.length := by
  by_cases hcomma : ',' ∈ h.toList
  · rw [(endpoints_eq_urls_iff config h).mpr (.inl hcomma)]
  · rw [endpoints_withHost, if_neg hcomma, urls_of_notMem hcomma]
    split_ifs <;> simp

/-- **A list of addresses is read one by one**: two lists joined by a comma are the addresses of the
one, then those of the other, and these are what each gives as a host of its own, if and only if
each is a list itself or a bare host name. -/
theorem endpoints_append (config : RegistryConfig) (h₁ h₂ : String) :
    (config.withHost (h₁ ++ "," ++ h₂)).endpoints = config.urls h₁ ++ config.urls h₂
      ∧ ((config.withHost (h₁ ++ "," ++ h₂)).endpoints
          = (config.withHost h₁).endpoints ++ (config.withHost h₂).endpoints
        ↔ (',' ∈ h₁.toList ∨ BareHost h₁) ∧ (',' ∈ h₂.toList ∨ BareHost h₂)) := by
  have hjoined : (config.withHost (h₁ ++ "," ++ h₂)).endpoints
      = config.urls h₁ ++ config.urls h₂ := by
    rw [← urls_append, endpoints_eq_urls_iff]
    exact .inl (by simp)
  refine ⟨hjoined, ?_⟩
  rw [hjoined, ← endpoints_eq_urls_iff config h₁, ← endpoints_eq_urls_iff config h₂]
  constructor
  · intro heq
    -- no list is longer than what its host gives, so the two halves agree
    have hlength := congrArg List.length heq
    rw [List.length_append, List.length_append] at hlength
    have hle₁ := length_urls_le config h₁
    have hle₂ := length_urls_le config h₂
    obtain ⟨heq₁, heq₂⟩ := List.append_inj heq (by omega)
    exact ⟨heq₁.symm, heq₂.symm⟩
  · rintro ⟨heq₁, heq₂⟩
    rw [heq₁, heq₂]

/-- **A node of a cluster on its own** is given a second port. -/
theorem single_node_port : ¬ ∀ (config : RegistryConfig) (h₁ h₂ : String),
    (∀ addr ∈ splitCommas h₁ ++ splitCommas h₂, trim addr ≠ "") →
    (config.withHost (h₁ ++ "," ++ h₂)).endpoints
      = (config.withHost h₁).endpoints ++ (config.withHost h₂).endpoints := by
  intro h
  exact absurd (h .default "10.0.0.1:2379" "10.0.0.2:2379" (by decide +kernel)) (by decide +kernel)

end RegistryConfig

end PecsRegistry
