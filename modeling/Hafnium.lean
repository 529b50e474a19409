import Hafnium.Api.Binding
import Hafnium.Api.Console
import Hafnium.Api.Encoding
import Hafnium.Api.InfoReport
import Hafnium.Api.Isolation
import Hafnium.Api.LifeCycle
import Hafnium.Api.MemPerm
import Hafnium.Api.Pages
import Hafnium.Api.RxCustody
import Hafnium.Ffa.ClearExact
import Hafnium.Ffa.OtherWorld
import Hafnium.Ffa.RegionPages
import Hafnium.Ffa.Rollback
import Hafnium.Ffa.TeeRoundTrip
import Hafnium.Load.Copy
import Hafnium.Load.Cpio
import Hafnium.Load.CpuTable
import Hafnium.Manifest.MemRegions
import Hafnium.Manifest.Scratch
import Hafnium.Mm.BreakBeforeMake
import Hafnium.Mm.Tlb
