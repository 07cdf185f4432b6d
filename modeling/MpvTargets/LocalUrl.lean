import MpvTargets.Config
import MpvTargets.Library.Decimal
import MpvTargets.Library.TextCut
import MpvTargets.SocketText

/-! The URL of the local daemon: how `targets` prints it from the configured listener, and how the client
takes it apart. -/

namespace MpvTargets

def urlScheme : List Char := "wss://".toList

/-- The loopback address of the family where the address is unspecified. -/
def SocketAddr.reachable (address : SocketAddr) : SocketAddr :=
  if address.ip.isUnspecified then
    address.setIp (match address with
      | .v4 _ _ => IpAddr.localhostV4
      | .v6 _ _ _ => IpAddr.localhostV6)
  else address

def daemonUrl (config : DaemonConfig) : Except String String :=
  match SocketAddr.parse config.node.listen with
  | none => .error "local daemon has an invalid listen address"
  | some address => .ok (String.ofList (urlScheme ++ address.reachable.text))

/-- The errors of `Endpoint::parse`. -/
inductive UrlError where
  | invalidUrl
  | url (message : String)
  deriving DecidableEq, Repr

structure Endpoint where
  host : String
  port : UInt16
  deriving DecidableEq, Repr

/-- `strip_prefix`, of a character list. -/
def strip (start text : List Char) : Option (List Char) :=
  if start.isPrefixOf text then some (text.drop start.length) else none

def Endpoint.parse (value : String) : Except UrlError Endpoint :=
  match strip urlScheme value.toList with
  | none => .error .invalidUrl
  | some rest =>
      match TextCut.rsplitOnce ':' (rest.takeWhile fun char => char ≠ '/') with
      | none => .error (.url "URL must include host and port")
      | some (host, port) =>
          match Decimal.parseUnsigned 65535 port with
          | none => .error (.url "invalid port")
          | some port =>
              if host.isEmpty then .error (.url "URL must include host")
              else
                .ok {
                  host := String.ofList (TextCut.trimMatches ']' (TextCut.trimMatches '[' host))
                  port := UInt16.ofNat port }

/-- What stands in the text of an address neither ends an authority nor brackets a host. -/
def IsHostChar (char : Char) : Prop := char ≠ '/' ∧ char ≠ '[' ∧ char ≠ ']'

instance (char : Char) : Decidable (IsHostChar char) := inferInstanceAs (Decidable (_ ∧ _))

theorem isHostChar_digits {radix value : Nat} (hlow : 1 < radix) (hhigh : radix ≤ 16) :
    ∀ char ∈ Nat.toDigits radix value, IsHostChar char := by
  have hdigit : ∀ digit < 16, IsHostChar (Nat.digitChar digit) := by decide
  induction value using Nat.strong_induction_on with
  | _ value ih =>
      intro char hchar
      rw [Nat.toDigits_eq_if hlow] at hchar
      split_ifs at hchar with hlt
      · rw [List.mem_singleton.mp hchar]
        exact hdigit value (by omega)
      · rcases List.mem_append.mp hchar with hfront | hlast
        · have hsmaller : value / radix < value := Nat.div_lt_self (by omega) hlow
          exact ih (value / radix) hsmaller char hfront
        · rw [List.mem_singleton.mp hlast]
          have hmod : value % radix < radix := Nat.mod_lt value (by omega)
          exact hdigit (value % radix) (by omega)

namespace IpAddr

theorem isHostChar_joined {separator : Char} (hseparator : IsHostChar separator) {parts : List (List Char)}
    (hparts : ∀ part ∈ parts, ∀ char ∈ part, IsHostChar char) :
    ∀ char ∈ joined separator parts, IsHostChar char := by
  fun_induction joined separator parts with
  | case1 => simp
  | case2 part => exact hparts part List.mem_cons_self
  | case3 part rest hrest ih =>
      intro char hchar
      rcases List.mem_append.mp hchar with hpart | hlater
      · exact hparts part List.mem_cons_self char hpart
      · rcases List.mem_cons.mp hlater with rfl | hlater
        · exact hseparator
        · exact ih (fun other hother => hparts other (List.mem_cons_of_mem _ hother)) char hlater

theorem isHostChar_octets (octets : List UInt8) : ∀ char ∈ octetsText octets, IsHostChar char := by
  apply isHostChar_joined (by decide)
  intro part hpart
  obtain ⟨octet, -, rfl⟩ := List.mem_map.mp hpart
  exact isHostChar_digits (by decide) (by decide)

theorem isHostChar_segments (segments : List UInt16) : ∀ char ∈ segmentsText segments, IsHostChar char := by
  apply isHostChar_joined (by decide)
  intro part hpart
  obtain ⟨segment, -, rfl⟩ := List.mem_map.mp hpart
  exact isHostChar_digits (by decide) (by decide)

theorem isHostChar_v6Text (segments : List UInt16) : ∀ char ∈ v6Text segments, IsHostChar char := by
  intro char hchar
  have hcolons : ∀ char ∈ "::".toList, IsHostChar char := by simp [IsHostChar]
  have hmapped : ∀ char ∈ "::ffff:".toList, IsHostChar char := by simp [IsHostChar]
  unfold v6Text at hchar
  split at hchar
  · rcases List.mem_append.mp hchar with hfront | hoctets
    · exact hmapped char hfront
    · exact isHostChar_octets _ char hoctets
  · dsimp only at hchar
    split_ifs at hchar
    · rcases List.mem_append.mp hchar with hfront | hlater
      · rcases List.mem_append.mp hfront with hfront | hmiddle
        · exact isHostChar_segments _ char hfront
        · exact hcolons char hmiddle
      · exact isHostChar_segments _ char hlater
    · exact isHostChar_segments _ char hchar

theorem isHostChar_text (ip : IpAddr) : ∀ char ∈ ip.text, IsHostChar char := by
  cases ip with
  | v4 octets => exact isHostChar_octets octets
  | v6 segments => exact isHostChar_v6Text segments

end IpAddr

namespace SocketAddr

/-- `%` and the scope, where it is not zero. -/
def scopeText : SocketAddr → List Char
  | v4 _ _ => []
  | v6 _ scope _ => if scope = 0 then [] else '%' :: Nat.toDigits 10 scope.toNat

theorem hostText_eq (address : SocketAddr) : address.hostText = address.ip.text ++ address.scopeText := by
  cases address with
  | v4 octets port => exact (List.append_nil _).symm
  | v6 segments scope port => rfl

theorem isHostChar_hostText (address : SocketAddr) : ∀ char ∈ address.hostText, IsHostChar char := by
  intro char hchar
  rw [hostText_eq] at hchar
  rcases List.mem_append.mp hchar with hip | hscope
  · exact address.ip.isHostChar_text char hip
  · cases address with
    | v4 octets port => cases hscope
    | v6 segments scope port =>
        simp only [scopeText] at hscope
        split_ifs at hscope
        · cases hscope
        · rcases List.mem_cons.mp hscope with rfl | hdigit
          · decide
          · exact isHostChar_digits (by decide) (by decide) char hdigit

/-- The authority before its port. -/
def authority : SocketAddr → List Char
  | address@(v4 _ _) => address.hostText
  | address@(v6 _ _ _) => '[' :: (address.hostText ++ [']'])

theorem text_eq (address : SocketAddr) :
    address.text = address.authority ++ ':' :: Nat.toDigits 10 address.port.toNat := by
  cases address with
  | v4 octets port => rfl
  | v6 segments scope port => simp [text, authority, SocketAddr.port]

theorem trimmed_authority (address : SocketAddr) :
    TextCut.trimMatches ']' (TextCut.trimMatches '[' address.authority) = address.hostText := by
  have hopen : '[' ∉ address.hostText := fun hmem => (address.isHostChar_hostText _ hmem).2.1 rfl
  have hclose : ']' ∉ address.hostText := fun hmem => (address.isHostChar_hostText _ hmem).2.2 rfl
  cases address with
  | v4 octets port =>
      unfold authority
      rw [TextCut.trimMatches_of_not_mem hopen, TextCut.trimMatches_of_not_mem hclose]
  | v6 segments scope port =>
      have hfront : '[' ∉ (v6 segments scope port).hostText ++ [']'] := by
        rw [List.mem_append, List.mem_singleton]
        rintro (hmem | heq)
        · exact hopen hmem
        · exact absurd heq (by decide)
      unfold authority
      rw [TextCut.trimMatches_cons hfront, TextCut.trimMatches_concat hclose]

theorem isHostChar_authority_slash (address : SocketAddr) : '/' ∉ address.authority := by
  have hhost : '/' ∉ address.hostText := fun hmem => (address.isHostChar_hostText _ hmem).1 rfl
  cases address with
  | v4 octets port => exact hhost
  | v6 segments scope port =>
      unfold authority
      rw [List.mem_cons, List.mem_append, List.mem_singleton]
      rintro (heq | hmem | heq)
      · exact absurd heq (by decide)
      · exact hhost hmem
      · exact absurd heq (by decide)

/-- The host is not an empty text. -/
def HasHost : SocketAddr → Prop
  | v4 octets _ => octets ≠ []
  | v6 _ _ _ => True

theorem authority_ne_nil {address : SocketAddr} (h : address.HasHost) : address.authority ≠ [] := by
  cases address with
  | v4 octets port =>
      have hdigits : ∀ octet : UInt8, Nat.toDigits 10 octet.toNat ≠ [] := fun octet => Nat.toDigits_ne_nil
      cases octets with
      | nil => exact absurd rfl h
      | cons octet rest =>
          cases rest with
          | nil => exact hdigits octet
          | cons other rest =>
              intro hnil
              exact hdigits octet (List.append_eq_nil_iff.mp hnil).1
  | v6 segments scope port => simp [authority]

theorem hasHost_of_parse {text : String} {address : SocketAddr} (h : parse text = some address) :
    address.HasHost := by
  cases address with
  | v6 segments scope port => trivial
  | v4 octets port =>
      unfold parse at h
      cases hv4 : readV4 text.toList with
      | some result =>
          obtain ⟨read, rest⟩ := result
          rw [hv4] at h
          dsimp only at h
          split_ifs at h
          cases h
          simp only [readV4, readIpv4, Option.bind_eq_bind, Option.bind_eq_some_iff, Option.pure_def,
            Option.some.injEq, Prod.mk.injEq] at hv4
          obtain ⟨_, ⟨_, _, _, _, _, _, _, _, rfl⟩, _, _, hread, _⟩ := hv4
          cases hread
          simp [HasHost]
      | none =>
          rw [hv4] at h
          dsimp only at h
          cases hv6 : readV6 text.toList with
          | none =>
              rw [hv6] at h
              cases h
          | some result =>
              obtain ⟨read, rest⟩ := result
              rw [hv6] at h
              dsimp only at h
              split_ifs at h
              cases h
              simp only [readV6, Option.bind_eq_bind, Option.bind_eq_some_iff, Option.pure_def,
                Option.some.injEq, Prod.mk.injEq] at hv6
              obtain ⟨_, _, _, _, _, _, _, _, hread, _⟩ := hv6
              cases hread

theorem hasHost_reachable {address : SocketAddr} (h : address.HasHost) : address.reachable.HasHost := by
  unfold reachable
  split_ifs with hunspecified
  · cases address with
    | v4 octets port => exact List.cons_ne_nil _ _
    | v6 segments scope port => trivial
  · exact h

theorem port_reachable (address : SocketAddr) : address.reachable.port = address.port := by
  unfold reachable
  split_ifs with hunspecified
  · cases address <;> rfl
  · rfl

theorem scopeText_reachable (address : SocketAddr) : address.reachable.scopeText = address.scopeText := by
  unfold reachable
  split_ifs with hunspecified
  · cases address <;> rfl
  · rfl

end SocketAddr

/-- The client takes the printed authority apart again. -/
theorem Endpoint.parse_text {address : SocketAddr} (h : address.HasHost) :
    Endpoint.parse (String.ofList (urlScheme ++ address.text)) =
      .ok { host := String.ofList address.hostText, port := address.port } := by
  have hslash : ∀ char ∈ address.text, decide (char ≠ '/') = true := by
    intro char hchar
    rw [decide_eq_true_eq]
    rintro rfl
    rw [SocketAddr.text_eq] at hchar
    rcases List.mem_append.mp hchar with hauthority | hport
    · exact address.isHostChar_authority_slash hauthority
    · rcases List.mem_cons.mp hport with heq | hdigit
      · exact absurd heq (by decide)
      · exact (isHostChar_digits (by decide) (by decide) _ hdigit).1 rfl
  have htaken : (address.text.takeWhile fun char => char ≠ '/') = address.text :=
    List.takeWhile_eq_self_iff.mpr hslash
  have hcolon : ':' ∉ Nat.toDigits 10 address.port.toNat := by
    intro hmem
    exact absurd (Decimal.isDigit_of_mem hmem) (by decide)
  have hcut : TextCut.rsplitOnce ':' address.text =
      some (address.authority, Nat.toDigits 10 address.port.toNat) := by
    rw [SocketAddr.text_eq]
    exact TextCut.rsplitOnce_append hcolon address.authority
  have hport : Decimal.parseUnsigned 65535 (Nat.toDigits 10 address.port.toNat) = some address.port.toNat := by
    apply Decimal.parseUnsigned_toDigits
    have hlt := address.port.toNat_lt
    omega
  have hempty : address.authority.isEmpty = false := by
    rw [List.isEmpty_eq_false_iff]
    exact SocketAddr.authority_ne_nil h
  have hstrip : strip urlScheme (urlScheme ++ address.text) = some address.text := by
    unfold strip
    rw [if_pos (List.isPrefixOf_iff_prefix.mpr (List.prefix_append _ _)), List.drop_left]
  unfold Endpoint.parse
  rw [String.toList_ofList, hstrip]
  dsimp only
  rw [htaken, hcut]
  dsimp only
  rw [hport]
  dsimp only
  rw [hempty, if_neg (by decide), address.trimmed_authority, UInt16.ofNat_toNat]

/-- The address of a configured listener, or the loopback address of its family. -/
def SocketAddr.localIp (address : SocketAddr) : IpAddr :=
  if address.ip.isUnspecified then
    match address with
    | .v4 _ _ => IpAddr.localhostV4
    | .v6 _ _ _ => IpAddr.localhostV6
  else address.ip

theorem SocketAddr.ip_reachable (address : SocketAddr) : address.reachable.ip = address.localIp := by
  unfold reachable localIp
  split_ifs with hunspecified
  · cases address <;> rfl
  · rfl

/-- The host and the port that `targets` takes from its URL of the local daemon. -/
theorem local_url_reaches_listener (config : DaemonConfig) (address : SocketAddr)
    (hlisten : SocketAddr.parse config.node.listen = some address) :
    ∃ url endpoint, daemonUrl config = .ok url ∧ Endpoint.parse url = .ok endpoint ∧
      endpoint.port = address.port ∧
      endpoint.host = String.ofList (address.localIp.text ++ address.scopeText) := by
  have hhost := SocketAddr.hasHost_reachable (SocketAddr.hasHost_of_parse hlisten)
  refine ⟨_, _, ?_, Endpoint.parse_text hhost, address.port_reachable, ?_⟩
  · unfold daemonUrl
    rw [hlisten]
  · rw [SocketAddr.hostText_eq, address.ip_reachable, address.scopeText_reachable]

/-- The address has no scope: it is of IPv4, or its scope id is zero. -/
def SocketAddr.Unscoped : SocketAddr → Prop
  | .v4 _ _ => True
  | .v6 _ scope _ => scope = 0

instance : DecidablePred SocketAddr.Unscoped
  | .v4 _ _ => isTrue trivial
  | .v6 _ scope _ => inferInstanceAs (Decidable (scope = 0))

theorem SocketAddr.scopeText_eq_nil_iff (address : SocketAddr) : address.scopeText = [] ↔ address.Unscoped := by
  cases address with
  | v4 octets port => exact iff_of_true rfl trivial
  | v6 segments scope port =>
      by_cases hscope : scope = 0
      · exact iff_of_true (if_pos hscope) hscope
      · refine iff_of_false ?_ hscope
        rw [scopeText, if_neg hscope]
        exact List.cons_ne_nil _ _

/-- The URL of the local daemon gives the port and the address of the listener exactly if this has no scope. -/
theorem local_url_reaches_listener_iff (config : DaemonConfig) (address : SocketAddr)
    (hlisten : SocketAddr.parse config.node.listen = some address) :
    (∃ url endpoint, daemonUrl config = .ok url ∧ Endpoint.parse url = .ok endpoint ∧
      endpoint.port = address.port ∧ endpoint.host = String.ofList address.localIp.text) ↔
        address.Unscoped := by
  obtain ⟨url, endpoint, hurl, hendpoint, hport, hhost⟩ := local_url_reaches_listener config address hlisten
  rw [← address.scopeText_eq_nil_iff]
  constructor
  · rintro ⟨url', endpoint', hurl', hendpoint', _, hhost'⟩
    obtain rfl := Except.ok.inj (hurl.symm.trans hurl')
    obtain rfl := Except.ok.inj (hendpoint.symm.trans hendpoint')
    have htexts := String.ofList_injective (hhost.symm.trans hhost')
    exact List.append_right_eq_self.mp htexts
  · intro hscope
    refine ⟨url, endpoint, hurl, hendpoint, hport, ?_⟩
    rw [hhost, hscope, List.append_nil]

/-- A node that listens here. -/
def listeningNode (listen : String) : DaemonConfig :=
  ⟨⟨"fez", listen⟩, ⟨"tls/server.crt", "tls/server.key"⟩, []⟩

/-- Under `[::]` the local daemon is reached at `::1`, but not under `[::%3]`. -/
theorem local_url_reaches_listener_iff_unspecified :
    (∃ url endpoint, daemonUrl (listeningNode "[::]:9876") = .ok url ∧ Endpoint.parse url = .ok endpoint ∧
      endpoint.port = 9876 ∧ endpoint.host = "::1") ∧
    ¬∃ url endpoint, daemonUrl (listeningNode "[::%3]:9876") = .ok url ∧ Endpoint.parse url = .ok endpoint ∧
      endpoint.port = 9876 ∧ endpoint.host = "::1" :=
  ⟨(local_url_reaches_listener_iff (listeningNode "[::]:9876") (.v6 [0, 0, 0, 0, 0, 0, 0, 0] 0 9876)
      (by decide +kernel)).mpr rfl,
    fun h => absurd ((local_url_reaches_listener_iff (listeningNode "[::%3]:9876")
      (.v6 [0, 0, 0, 0, 0, 0, 0, 0] 3 9876) (by decide +kernel)).mp h) (by decide)⟩

/-- The host of a listener with a scope is not the text of its address alone. -/
theorem scoped_listener_host :
    (listeningNode "[fe80::1%3]:80").validate = .ok () ∧
    SocketAddr.parse "[fe80::1%3]:80" = some (.v6 [0xfe80, 0, 0, 0, 0, 0, 0, 1] 3 80) ∧
    ¬∃ url endpoint, daemonUrl (listeningNode "[fe80::1%3]:80") = .ok url ∧
      Endpoint.parse url = .ok endpoint ∧
      endpoint.host = String.ofList (SocketAddr.v6 [0xfe80, 0, 0, 0, 0, 0, 0, 1] 3 80).localIp.text := by
  have hparse : SocketAddr.parse "[fe80::1%3]:80" = some (.v6 [0xfe80, 0, 0, 0, 0, 0, 0, 1] 3 80) := by
    decide +kernel
  refine ⟨by rfl, hparse, ?_⟩
  rintro ⟨url, endpoint, hurl, hendpoint, hhost⟩
  have hprinted : daemonUrl (listeningNode "[fe80::1%3]:80") =
      .ok (String.ofList (urlScheme ++ (SocketAddr.v6 [0xfe80, 0, 0, 0, 0, 0, 0, 1] 3 80).text)) := by
    unfold daemonUrl
    rw [show (listeningNode "[fe80::1%3]:80").node.listen = "[fe80::1%3]:80" from rfl, hparse]
    rfl
  obtain rfl := Except.ok.inj (hprinted.symm.trans hurl)
  have hhost' : (SocketAddr.v6 [0xfe80, 0, 0, 0, 0, 0, 0, 1] 3 80).HasHost := trivial
  rw [Endpoint.parse_text hhost'] at hendpoint
  obtain rfl := Except.ok.inj hendpoint
  exact absurd hhost (by decide +kernel)

end MpvTargets
