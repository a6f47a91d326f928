import Cadence.Zone.Basic

/-!
# The zone table

Offsets of the known zones from 1990 to 2050, in minutes east of universal
time.  Each entry gives the moment of universal time, written as the digits of
year, month, day, hour and minute, from which an offset holds.  Names are
matched exactly.
-/

namespace Cadence.Zone

/-- The second of universal time written as `YYYYMMDDhhmm`. -/
def secondOfStamp (stamp : Nat) : Int :=
  let year : Int := stamp / 100000000
  let month := stamp / 1000000 % 100
  let day := stamp / 10000 % 100
  let hour := stamp / 100 % 100
  let minute := stamp % 100
  secondOf ⟨daysBeforeYear year + daysBeforeMonth year month + day⟩ (hour * 3600 + minute * 60)

/-- A zone from its offsets in minutes. -/
def ofStamps (name : String) (initial : Int) (entries : List (Nat × Int)) : Zone :=
  { name
    initial := initial * 60
    transitions := entries.map fun (stamp, offset) => ⟨secondOfStamp stamp, offset * 60⟩ }

/-- Eastern time of the United States, under any of its names. -/
def easternTime (name : String) : Zone := ofStamps name (-300)
  [(199004010700, -240), (199010280600, -300), (199104070700, -240), (199110270600, -300),
    (199204050700, -240), (199210250600, -300), (199304040700, -240), (199310310600, -300),
    (199404030700, -240), (199410300600, -300), (199504020700, -240), (199510290600, -300),
    (199604070700, -240), (199610270600, -300), (199704060700, -240), (199710260600, -300),
    (199804050700, -240), (199810250600, -300), (199904040700, -240), (199910310600, -300),
    (200004020700, -240), (200010290600, -300), (200104010700, -240), (200110280600, -300),
    (200204070700, -240), (200210270600, -300), (200304060700, -240), (200310260600, -300),
    (200404040700, -240), (200410310600, -300), (200504030700, -240), (200510300600, -300),
    (200604020700, -240), (200610290600, -300), (200703110700, -240), (200711040600, -300),
    (200803090700, -240), (200811020600, -300), (200903080700, -240), (200911010600, -300),
    (201003140700, -240), (201011070600, -300), (201103130700, -240), (201111060600, -300),
    (201203110700, -240), (201211040600, -300), (201303100700, -240), (201311030600, -300),
    (201403090700, -240), (201411020600, -300), (201503080700, -240), (201511010600, -300),
    (201603130700, -240), (201611060600, -300), (201703120700, -240), (201711050600, -300),
    (201803110700, -240), (201811040600, -300), (201903100700, -240), (201911030600, -300),
    (202003080700, -240), (202011010600, -300), (202103140700, -240), (202111070600, -300),
    (202203130700, -240), (202211060600, -300), (202303120700, -240), (202311050600, -300),
    (202403100700, -240), (202411030600, -300), (202503090700, -240), (202511020600, -300),
    (202603080700, -240), (202611010600, -300), (202703140700, -240), (202711070600, -300),
    (202803120700, -240), (202811050600, -300), (202903110700, -240), (202911040600, -300),
    (203003100700, -240), (203011030600, -300), (203103090700, -240), (203111020600, -300),
    (203203140700, -240), (203211070600, -300), (203303130700, -240), (203311060600, -300),
    (203403120700, -240), (203411050600, -300), (203503110700, -240), (203511040600, -300),
    (203603090700, -240), (203611020600, -300), (203703080700, -240), (203711010600, -300),
    (203803140700, -240), (203811070600, -300), (203903130700, -240), (203911060600, -300),
    (204003110700, -240), (204011040600, -300), (204103100700, -240), (204111030600, -300),
    (204203090700, -240), (204211020600, -300), (204303080700, -240), (204311010600, -300),
    (204403130700, -240), (204411060600, -300), (204503120700, -240), (204511050600, -300),
    (204603110700, -240), (204611040600, -300), (204703100700, -240), (204711030600, -300),
    (204803080700, -240), (204811010600, -300), (204903140700, -240), (204911070600, -300),
    (205003130700, -240), (205011060600, -300)]

def saoPaulo : Zone := ofStamps "America/Sao_Paulo" (-120)
  [(199002110200, -180), (199010210300, -120), (199102170200, -180), (199110200300, -120),
    (199202090200, -180), (199210250300, -120), (199301310200, -180), (199310170300, -120),
    (199402200200, -180), (199410160300, -120), (199502190200, -180), (199510150300, -120),
    (199602110200, -180), (199610060300, -120), (199702160200, -180), (199710060300, -120),
    (199803010200, -180), (199810110300, -120), (199902210200, -180), (199910030300, -120),
    (200002270200, -180), (200010080300, -120), (200102180200, -180), (200110140300, -120),
    (200202170200, -180), (200211030300, -120), (200302160200, -180), (200310190300, -120),
    (200402150200, -180), (200411020300, -120), (200502200200, -180), (200510160300, -120),
    (200602190200, -180), (200611050300, -120), (200702250200, -180), (200710140300, -120),
    (200802170200, -180), (200810190300, -120), (200902150200, -180), (200910180300, -120),
    (201002210200, -180), (201010170300, -120), (201102200200, -180), (201110160300, -120),
    (201202260200, -180), (201210210300, -120), (201302170200, -180), (201310200300, -120),
    (201402160200, -180), (201410190300, -120), (201502220200, -180), (201510180300, -120),
    (201602210200, -180), (201610160300, -120), (201702190200, -180), (201710150300, -120),
    (201802180200, -180), (201811040300, -120), (201902170200, -180)]

def havana : Zone := ofStamps "America/Havana" (-300)
  [(199004010500, -240), (199010140400, -300), (199104070500, -240), (199110130500, -300),
    (199204050500, -240), (199210110500, -300), (199304040500, -240), (199310100500, -300),
    (199404030500, -240), (199410090500, -300), (199504020500, -240), (199510080500, -300),
    (199604070500, -240), (199610060500, -300), (199704060500, -240), (199710120500, -300),
    (199803290500, -240), (199810250500, -300), (199903280500, -240), (199910310500, -300),
    (200004020500, -240), (200010290500, -300), (200104010500, -240), (200110280500, -300),
    (200204070500, -240), (200210270500, -300), (200304060500, -240), (200310260500, -300),
    (200403280500, -240), (200610290500, -300), (200703110500, -240), (200710280500, -300),
    (200803160500, -240), (200810260500, -300), (200903080500, -240), (200910250500, -300),
    (201003140500, -240), (201010310500, -300), (201103200500, -240), (201111130500, -300),
    (201204010500, -240), (201211040500, -300), (201303100500, -240), (201311030500, -300),
    (201403090500, -240), (201411020500, -300), (201503080500, -240), (201511010500, -300),
    (201603130500, -240), (201611060500, -300), (201703120500, -240), (201711050500, -300),
    (201803110500, -240), (201811040500, -300), (201903100500, -240), (201911030500, -300),
    (202003080500, -240), (202011010500, -300), (202103140500, -240), (202111070500, -300),
    (202203130500, -240), (202211060500, -300), (202303120500, -240), (202311050500, -300),
    (202403100500, -240), (202411030500, -300), (202503090500, -240), (202511020500, -300),
    (202603080500, -240), (202611010500, -300), (202703140500, -240), (202711070500, -300),
    (202803120500, -240), (202811050500, -300), (202903110500, -240), (202911040500, -300),
    (203003100500, -240), (203011030500, -300), (203103090500, -240), (203111020500, -300),
    (203203140500, -240), (203211070500, -300), (203303130500, -240), (203311060500, -300),
    (203403120500, -240), (203411050500, -300), (203503110500, -240), (203511040500, -300),
    (203603090500, -240), (203611020500, -300), (203703080500, -240), (203711010500, -300),
    (203803140500, -240), (203811070500, -300), (203903130500, -240), (203911060500, -300),
    (204003110500, -240), (204011040500, -300), (204103100500, -240), (204111030500, -300),
    (204203090500, -240), (204211020500, -300), (204303080500, -240), (204311010500, -300),
    (204403130500, -240), (204411060500, -300), (204503120500, -240), (204511050500, -300),
    (204603110500, -240), (204611040500, -300), (204703100500, -240), (204711030500, -300),
    (204803080500, -240), (204811010500, -300), (204903140500, -240), (204911070500, -300),
    (205003130500, -240), (205011060500, -300)]

def stJohns : Zone := ofStamps "America/St_Johns" (-210)
  [(199004010331, -150), (199010280231, -210), (199104070331, -150), (199110270231, -210),
    (199204050331, -150), (199210250231, -210), (199304040331, -150), (199310310231, -210),
    (199404030331, -150), (199410300231, -210), (199504020331, -150), (199510290231, -210),
    (199604070331, -150), (199610270231, -210), (199704060331, -150), (199710260231, -210),
    (199804050331, -150), (199810250231, -210), (199904040331, -150), (199910310231, -210),
    (200004020331, -150), (200010290231, -210), (200104010331, -150), (200110280231, -210),
    (200204070331, -150), (200210270231, -210), (200304060331, -150), (200310260231, -210),
    (200404040331, -150), (200410310231, -210), (200504030331, -150), (200510300231, -210),
    (200604020331, -150), (200610290231, -210), (200703110331, -150), (200711040231, -210),
    (200803090331, -150), (200811020231, -210), (200903080331, -150), (200911010231, -210),
    (201003140331, -150), (201011070231, -210), (201103130331, -150), (201111060430, -210),
    (201203110530, -150), (201211040430, -210), (201303100530, -150), (201311030430, -210),
    (201403090530, -150), (201411020430, -210), (201503080530, -150), (201511010430, -210),
    (201603130530, -150), (201611060430, -210), (201703120530, -150), (201711050430, -210),
    (201803110530, -150), (201811040430, -210), (201903100530, -150), (201911030430, -210),
    (202003080530, -150), (202011010430, -210), (202103140530, -150), (202111070430, -210),
    (202203130530, -150), (202211060430, -210), (202303120530, -150), (202311050430, -210),
    (202403100530, -150), (202411030430, -210), (202503090530, -150), (202511020430, -210),
    (202603080530, -150), (202611010430, -210), (202703140530, -150), (202711070430, -210),
    (202803120530, -150), (202811050430, -210), (202903110530, -150), (202911040430, -210),
    (203003100530, -150), (203011030430, -210), (203103090530, -150), (203111020430, -210),
    (203203140530, -150), (203211070430, -210), (203303130530, -150), (203311060430, -210),
    (203403120530, -150), (203411050430, -210), (203503110530, -150), (203511040430, -210),
    (203603090530, -150), (203611020430, -210), (203703080530, -150), (203711010430, -210),
    (203803140530, -150), (203811070430, -210), (203903130530, -150), (203911060430, -210),
    (204003110530, -150), (204011040430, -210), (204103100530, -150), (204111030430, -210),
    (204203090530, -150), (204211020430, -210), (204303080530, -150), (204311010430, -210),
    (204403130530, -150), (204411060430, -210), (204503120530, -150), (204511050430, -210),
    (204603110530, -150), (204611040430, -210), (204703100530, -150), (204711030430, -210),
    (204803080530, -150), (204811010430, -210), (204903140530, -150), (204911070430, -210),
    (205003130530, -150), (205011060430, -210)]

def london : Zone := ofStamps "Europe/London" 0
  [(199003250100, 60), (199010280100, 0), (199103310100, 60), (199110270100, 0),
    (199203290100, 60), (199210250100, 0), (199303280100, 60), (199310240100, 0),
    (199403270100, 60), (199410230100, 0), (199503260100, 60), (199510220100, 0),
    (199603310100, 60), (199610270100, 0), (199703300100, 60), (199710260100, 0),
    (199803290100, 60), (199810250100, 0), (199903280100, 60), (199910310100, 0),
    (200003260100, 60), (200010290100, 0), (200103250100, 60), (200110280100, 0),
    (200203310100, 60), (200210270100, 0), (200303300100, 60), (200310260100, 0),
    (200403280100, 60), (200410310100, 0), (200503270100, 60), (200510300100, 0),
    (200603260100, 60), (200610290100, 0), (200703250100, 60), (200710280100, 0),
    (200803300100, 60), (200810260100, 0), (200903290100, 60), (200910250100, 0),
    (201003280100, 60), (201010310100, 0), (201103270100, 60), (201110300100, 0),
    (201203250100, 60), (201210280100, 0), (201303310100, 60), (201310270100, 0),
    (201403300100, 60), (201410260100, 0), (201503290100, 60), (201510250100, 0),
    (201603270100, 60), (201610300100, 0), (201703260100, 60), (201710290100, 0),
    (201803250100, 60), (201810280100, 0), (201903310100, 60), (201910270100, 0),
    (202003290100, 60), (202010250100, 0), (202103280100, 60), (202110310100, 0),
    (202203270100, 60), (202210300100, 0), (202303260100, 60), (202310290100, 0),
    (202403310100, 60), (202410270100, 0), (202503300100, 60), (202510260100, 0),
    (202603290100, 60), (202610250100, 0), (202703280100, 60), (202710310100, 0),
    (202803260100, 60), (202810290100, 0), (202903250100, 60), (202910280100, 0),
    (203003310100, 60), (203010270100, 0), (203103300100, 60), (203110260100, 0),
    (203203280100, 60), (203210310100, 0), (203303270100, 60), (203310300100, 0),
    (203403260100, 60), (203410290100, 0), (203503250100, 60), (203510280100, 0),
    (203603300100, 60), (203610260100, 0), (203703290100, 60), (203710250100, 0),
    (203803280100, 60), (203810310100, 0), (203903270100, 60), (203910300100, 0),
    (204003250100, 60), (204010280100, 0), (204103310100, 60), (204110270100, 0),
    (204203300100, 60), (204210260100, 0), (204303290100, 60), (204310250100, 0),
    (204403270100, 60), (204410300100, 0), (204503260100, 60), (204510290100, 0),
    (204603250100, 60), (204610280100, 0), (204703310100, 60), (204710270100, 0),
    (204803290100, 60), (204810250100, 0), (204903280100, 60), (204910310100, 0),
    (205003270100, 60), (205010300100, 0)]

def berlin : Zone := ofStamps "Europe/Berlin" 60
  [(199003250100, 120), (199009300100, 60), (199103310100, 120), (199109290100, 60),
    (199203290100, 120), (199209270100, 60), (199303280100, 120), (199309260100, 60),
    (199403270100, 120), (199409250100, 60), (199503260100, 120), (199509240100, 60),
    (199603310100, 120), (199610270100, 60), (199703300100, 120), (199710260100, 60),
    (199803290100, 120), (199810250100, 60), (199903280100, 120), (199910310100, 60),
    (200003260100, 120), (200010290100, 60), (200103250100, 120), (200110280100, 60),
    (200203310100, 120), (200210270100, 60), (200303300100, 120), (200310260100, 60),
    (200403280100, 120), (200410310100, 60), (200503270100, 120), (200510300100, 60),
    (200603260100, 120), (200610290100, 60), (200703250100, 120), (200710280100, 60),
    (200803300100, 120), (200810260100, 60), (200903290100, 120), (200910250100, 60),
    (201003280100, 120), (201010310100, 60), (201103270100, 120), (201110300100, 60),
    (201203250100, 120), (201210280100, 60), (201303310100, 120), (201310270100, 60),
    (201403300100, 120), (201410260100, 60), (201503290100, 120), (201510250100, 60),
    (201603270100, 120), (201610300100, 60), (201703260100, 120), (201710290100, 60),
    (201803250100, 120), (201810280100, 60), (201903310100, 120), (201910270100, 60),
    (202003290100, 120), (202010250100, 60), (202103280100, 120), (202110310100, 60),
    (202203270100, 120), (202210300100, 60), (202303260100, 120), (202310290100, 60),
    (202403310100, 120), (202410270100, 60), (202503300100, 120), (202510260100, 60),
    (202603290100, 120), (202610250100, 60), (202703280100, 120), (202710310100, 60),
    (202803260100, 120), (202810290100, 60), (202903250100, 120), (202910280100, 60),
    (203003310100, 120), (203010270100, 60), (203103300100, 120), (203110260100, 60),
    (203203280100, 120), (203210310100, 60), (203303270100, 120), (203310300100, 60),
    (203403260100, 120), (203410290100, 60), (203503250100, 120), (203510280100, 60),
    (203603300100, 120), (203610260100, 60), (203703290100, 120), (203710250100, 60),
    (203803280100, 120), (203810310100, 60), (203903270100, 120), (203910300100, 60),
    (204003250100, 120), (204010280100, 60), (204103310100, 120), (204110270100, 60),
    (204203300100, 120), (204210260100, 60), (204303290100, 120), (204310250100, 60),
    (204403270100, 120), (204410300100, 60), (204503260100, 120), (204510290100, 60),
    (204603250100, 120), (204610280100, 60), (204703310100, 120), (204710270100, 60),
    (204803290100, 120), (204810250100, 60), (204903280100, 120), (204910310100, 60),
    (205003270100, 120), (205010300100, 60)]

def cairo : Zone := ofStamps "Africa/Cairo" 120
  [(199004302300, 180), (199010010000, 120), (199104302300, 180), (199110010000, 120),
    (199204302300, 180), (199210010000, 120), (199304302300, 180), (199310010000, 120),
    (199404302300, 180), (199410010000, 120), (199504272200, 180), (199509282100, 120),
    (199604252200, 180), (199609262100, 120), (199704242200, 180), (199709252100, 120),
    (199804232200, 180), (199809242100, 120), (199904292200, 180), (199909302100, 120),
    (200004272200, 180), (200009282100, 120), (200104262200, 180), (200109272100, 120),
    (200204252200, 180), (200209262100, 120), (200304242200, 180), (200309252100, 120),
    (200404292200, 180), (200409302100, 120), (200504282200, 180), (200509292100, 120),
    (200604272200, 180), (200609212100, 120), (200704262200, 180), (200709062100, 120),
    (200804242200, 180), (200808282100, 120), (200904232200, 180), (200908202100, 120),
    (201004292200, 180), (201008102100, 120), (201009092200, 180), (201009302100, 120),
    (201405152200, 180), (201406262100, 120), (201407312200, 180), (201409252100, 120),
    (202304272200, 180), (202310262100, 120), (202404252200, 180), (202410312100, 120),
    (202504242200, 180), (202510302100, 120), (202604232200, 180), (202610292100, 120),
    (202704292200, 180), (202710282100, 120), (202804272200, 180), (202810262100, 120),
    (202904262200, 180), (202910252100, 120), (203004252200, 180), (203010312100, 120),
    (203104242200, 180), (203110302100, 120), (203204292200, 180), (203210282100, 120),
    (203304282200, 180), (203310272100, 120), (203404272200, 180), (203410262100, 120),
    (203504262200, 180), (203510252100, 120), (203604242200, 180), (203610302100, 120),
    (203704232200, 180), (203710292100, 120), (203804292200, 180), (203810282100, 120),
    (203904282200, 180), (203910272100, 120), (204004262200, 180), (204010252100, 120),
    (204104252200, 180), (204110312100, 120), (204204242200, 180), (204210302100, 120),
    (204304232200, 180), (204310292100, 120), (204404282200, 180), (204410272100, 120),
    (204504272200, 180), (204510262100, 120), (204604262200, 180), (204610252100, 120),
    (204704252200, 180), (204710312100, 120), (204804232200, 180), (204810292100, 120),
    (204904292200, 180), (204910282100, 120), (205004282200, 180), (205010272100, 120)]

def tokyo : Zone := ofStamps "Asia/Tokyo" 540 []

def kolkata : Zone := ofStamps "Asia/Kolkata" 330 []

def kathmandu : Zone := ofStamps "Asia/Kathmandu" 345 []

def sydney : Zone := ofStamps "Australia/Sydney" 660
  [(199003031600, 600), (199010271600, 660), (199103021600, 600), (199110261600, 660),
    (199202291600, 600), (199210241600, 660), (199303061600, 600), (199310301600, 660),
    (199403051600, 600), (199410291600, 660), (199503041600, 600), (199510281600, 660),
    (199603301600, 600), (199610261600, 660), (199703291600, 600), (199710251600, 660),
    (199803281600, 600), (199810241600, 660), (199903271600, 600), (199910301600, 660),
    (200003251600, 600), (200008261600, 660), (200103241600, 600), (200110271600, 660),
    (200203301600, 600), (200210261600, 660), (200303291600, 600), (200310251600, 660),
    (200403271600, 600), (200410301600, 660), (200503261600, 600), (200510291600, 660),
    (200604011600, 600), (200610281600, 660), (200703241600, 600), (200710271600, 660),
    (200804051600, 600), (200810041600, 660), (200904041600, 600), (200910031600, 660),
    (201004031600, 600), (201010021600, 660), (201104021600, 600), (201110011600, 660),
    (201203311600, 600), (201210061600, 660), (201304061600, 600), (201310051600, 660),
    (201404051600, 600), (201410041600, 660), (201504041600, 600), (201510031600, 660),
    (201604021600, 600), (201610011600, 660), (201704011600, 600), (201709301600, 660),
    (201803311600, 600), (201810061600, 660), (201904061600, 600), (201910051600, 660),
    (202004041600, 600), (202010031600, 660), (202104031600, 600), (202110021600, 660),
    (202204021600, 600), (202210011600, 660), (202304011600, 600), (202309301600, 660),
    (202404061600, 600), (202410051600, 660), (202504051600, 600), (202510041600, 660),
    (202604041600, 600), (202610031600, 660), (202704031600, 600), (202710021600, 660),
    (202804011600, 600), (202809301600, 660), (202903311600, 600), (202910061600, 660),
    (203004061600, 600), (203010051600, 660), (203104051600, 600), (203110041600, 660),
    (203204031600, 600), (203210021600, 660), (203304021600, 600), (203310011600, 660),
    (203404011600, 600), (203409301600, 660), (203503311600, 600), (203510061600, 660),
    (203604051600, 600), (203610041600, 660), (203704041600, 600), (203710031600, 660),
    (203804031600, 600), (203810021600, 660), (203904021600, 600), (203910011600, 660),
    (204003311600, 600), (204010061600, 660), (204104061600, 600), (204110051600, 660),
    (204204051600, 600), (204210041600, 660), (204304041600, 600), (204310031600, 660),
    (204404021600, 600), (204410011600, 660), (204504011600, 600), (204509301600, 660),
    (204603311600, 600), (204610061600, 660), (204704061600, 600), (204710051600, 660),
    (204804041600, 600), (204810031600, 660), (204904031600, 600), (204910021600, 660),
    (205004021600, 600), (205010011600, 660)]

def lordHowe : Zone := ofStamps "Australia/Lord_Howe" 660
  [(199003031500, 630), (199010271530, 660), (199103021500, 630), (199110261530, 660),
    (199202291500, 630), (199210241530, 660), (199303061500, 630), (199310301530, 660),
    (199403051500, 630), (199410291530, 660), (199503041500, 630), (199510281530, 660),
    (199603301500, 630), (199610261530, 660), (199703291500, 630), (199710251530, 660),
    (199803281500, 630), (199810241530, 660), (199903271500, 630), (199910301530, 660),
    (200003251500, 630), (200008261530, 660), (200103241500, 630), (200110271530, 660),
    (200203301500, 630), (200210261530, 660), (200303291500, 630), (200310251530, 660),
    (200403271500, 630), (200410301530, 660), (200503261500, 630), (200510291530, 660),
    (200604011500, 630), (200610281530, 660), (200703241500, 630), (200710271530, 660),
    (200804051500, 630), (200810041530, 660), (200904041500, 630), (200910031530, 660),
    (201004031500, 630), (201010021530, 660), (201104021500, 630), (201110011530, 660),
    (201203311500, 630), (201210061530, 660), (201304061500, 630), (201310051530, 660),
    (201404051500, 630), (201410041530, 660), (201504041500, 630), (201510031530, 660),
    (201604021500, 630), (201610011530, 660), (201704011500, 630), (201709301530, 660),
    (201803311500, 630), (201810061530, 660), (201904061500, 630), (201910051530, 660),
    (202004041500, 630), (202010031530, 660), (202104031500, 630), (202110021530, 660),
    (202204021500, 630), (202210011530, 660), (202304011500, 630), (202309301530, 660),
    (202404061500, 630), (202410051530, 660), (202504051500, 630), (202510041530, 660),
    (202604041500, 630), (202610031530, 660), (202704031500, 630), (202710021530, 660),
    (202804011500, 630), (202809301530, 660), (202903311500, 630), (202910061530, 660),
    (203004061500, 630), (203010051530, 660), (203104051500, 630), (203110041530, 660),
    (203204031500, 630), (203210021530, 660), (203304021500, 630), (203310011530, 660),
    (203404011500, 630), (203409301530, 660), (203503311500, 630), (203510061530, 660),
    (203604051500, 630), (203610041530, 660), (203704041500, 630), (203710031530, 660),
    (203804031500, 630), (203810021530, 660), (203904021500, 630), (203910011530, 660),
    (204003311500, 630), (204010061530, 660), (204104061500, 630), (204110051530, 660),
    (204204051500, 630), (204210041530, 660), (204304041500, 630), (204310031530, 660),
    (204404021500, 630), (204410011530, 660), (204504011500, 630), (204509301530, 660),
    (204603311500, 630), (204610061530, 660), (204704061500, 630), (204710051530, 660),
    (204804041500, 630), (204810031530, 660), (204904031500, 630), (204910021530, 660),
    (205004021500, 630), (205010011530, 660)]

def apia : Zone := ofStamps "Pacific/Apia" (-660)
  [(201009261100, -600), (201104021400, -660), (201109241400, -600), (201112301000, 840),
    (201203311400, 780), (201209291400, 840), (201304061400, 780), (201309281400, 840),
    (201404051400, 780), (201409271400, 840), (201504041400, 780), (201509261400, 840),
    (201604021400, 780), (201609241400, 840), (201704011400, 780), (201709231400, 840),
    (201803311400, 780), (201809291400, 840), (201904061400, 780), (201909281400, 840),
    (202004041400, 780), (202009261400, 840), (202104031400, 780)]

def kiritimati : Zone := ofStamps "Pacific/Kiritimati" (-600)
  [(199412311000, 840)]

def pagoPago : Zone := ofStamps "Pacific/Pago_Pago" (-660) []

def troll : Zone := ofStamps "Antarctica/Troll" 0
  [(200503270100, 120), (200510300100, 0), (200603260100, 120), (200610290100, 0),
    (200703250100, 120), (200710280100, 0), (200803300100, 120), (200810260100, 0),
    (200903290100, 120), (200910250100, 0), (201003280100, 120), (201010310100, 0),
    (201103270100, 120), (201110300100, 0), (201203250100, 120), (201210280100, 0),
    (201303310100, 120), (201310270100, 0), (201403300100, 120), (201410260100, 0),
    (201503290100, 120), (201510250100, 0), (201603270100, 120), (201610300100, 0),
    (201703260100, 120), (201710290100, 0), (201803250100, 120), (201810280100, 0),
    (201903310100, 120), (201910270100, 0), (202003290100, 120), (202010250100, 0),
    (202103280100, 120), (202110310100, 0), (202203270100, 120), (202210300100, 0),
    (202303260100, 120), (202310290100, 0), (202403310100, 120), (202410270100, 0),
    (202503300100, 120), (202510260100, 0), (202603290100, 120), (202610250100, 0),
    (202703280100, 120), (202710310100, 0), (202803260100, 120), (202810290100, 0),
    (202903250100, 120), (202910280100, 0), (203003310100, 120), (203010270100, 0),
    (203103300100, 120), (203110260100, 0), (203203280100, 120), (203210310100, 0),
    (203303270100, 120), (203310300100, 0), (203403260100, 120), (203410290100, 0),
    (203503250100, 120), (203510280100, 0), (203603300100, 120), (203610260100, 0),
    (203703290100, 120), (203710250100, 0), (203803280100, 120), (203810310100, 0),
    (203903270100, 120), (203910300100, 0), (204003250100, 120), (204010280100, 0),
    (204103310100, 120), (204110270100, 0), (204203300100, 120), (204210260100, 0),
    (204303290100, 120), (204310250100, 0), (204403270100, 120), (204410300100, 0),
    (204503260100, 120), (204510290100, 0), (204603250100, 120), (204610280100, 0),
    (204703310100, 120), (204710270100, 0), (204803290100, 120), (204810250100, 0),
    (204903280100, 120), (204910310100, 0), (205003270100, 120), (205010300100, 0)]

/-- Every zone a schedule may name. -/
def table : List Zone :=
  [universal "UTC", universal "Etc/UTC", universal "GMT", easternTime "US/Eastern",
   easternTime "America/New_York", saoPaulo, havana, stJohns, london, berlin, cairo, tokyo,
   kolkata, kathmandu, sydney, lordHowe, apia, kiritimati, pagoPago, troll]

/-- The zone with a name. -/
def find? (name : String) : Option Zone :=
  table.find? (·.name == name)

/-- The zone a schedule runs in: universal time unless it names one. -/
def named : Option String → Except Unknown Zone
  | none => .ok utc
  | some name => match find? name with
    | some zone => .ok zone
    | none => .error ⟨name⟩

end Cadence.Zone
