import DeviceSchema.Text.Regular

/-! # Addresses

The forms of the network addresses that may be defaults: an IPv4 address in
dotted decimals, and a domain name with an optional scheme and port.
-/
namespace DeviceSchema.Address

open Text (Regular)

def digit : Regular := .oneOf [('0', '9')]

/-- A number from 0 to 255 without needless zeros. -/
def octet : Regular :=
  .choice (.sequence [.literal "25", .oneOf [('0', '5')]])
    [.sequence [.char '2', .oneOf [('0', '4')], digit],
      .sequence [.char '1', digit, digit],
      .sequence [.optional (.oneOf [('1', '9')]), digit]]

/-- Four octets with points between them. -/
def ipv4 : Regular :=
  .sequence [octet, .char '.', octet, .char '.', octet, .char '.', octet]

def letter : Regular := .oneOf [('a', 'z'), ('A', 'Z')]

/-- The characters of the labels of a domain name, hyphens among them. -/
def labelCharacter : Regular := .oneOf [('A', 'Z'), ('a', 'z'), ('0', '9'), ('-', '-')]

/-- Labels around a point, a colon or two colons. -/
def labels : Regular :=
  .sequence [.star labelCharacter,
    .alt (.char '.') (.seq (.char ':') (.optional (.char ':'))),
    .star labelCharacter]

/-- A domain name, or an IPv6 address, with a scheme before it and a port after
it if need be. -/
def domainName : Regular :=
  .sequence [.optional (.seq (.plus letter) (.literal "://")),
    .plus labels,
    .optional (.seq (.char ':') (.plus digit))]

/-- Whether a text is an IPv4 address. -/
def isIpv4 (text : String) : Bool := ipv4.accepts text.toList

/-- Whether a text is a domain name. -/
def isDomainName (text : String) : Bool := domainName.accepts text.toList

end DeviceSchema.Address
